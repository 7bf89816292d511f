/-
Slots do not matter.

* `Computation.Uniform` — a computation that ends alike from related states;
* `Scope.Renamed` — the same names with the same values, in other slots;
* `Expr.uniform_evaluate` — an expression has the same value in such scopes, and leaves such scopes
  behind.

Design notes: the slots are related by one function on all numbers, also on those of slots that are
not there yet, so that slots may be added on both sides without a new function.
-/
import PromptMarkup.Expr.Evaluation
import PromptMarkup.Proofs.Evaluating

namespace PromptMarkup

/-! ### Related states -/

namespace Computation

variable {ε σ α β : Type} {R : σ → σ → Prop}

/-- From related states a computation ends alike, in related states. -/
def Uniform (R : σ → σ → Prop) (x : Computation ε σ α) : Prop :=
  ∀ s t, R s t → (runFrom s x).1 = (runFrom t x).1 ∧ R (runFrom s x).2 (runFrom t x).2

namespace Uniform

theorem pure (a : α) : Uniform R (pure a : Computation ε σ α) :=
  fun _ _ h => ⟨rfl, h⟩

theorem throw (e : ε) : Uniform R (throw e : Computation ε σ α) :=
  fun _ _ h => ⟨rfl, h⟩

theorem modify {f : σ → σ} (hf : ∀ s t, R s t → R (f s) (f t)) :
    Uniform R (modify f : Computation ε σ PUnit) :=
  fun s t h => ⟨rfl, hf s t h⟩

theorem look {part : σ → α} (hpart : ∀ s t, R s t → part s = part t) :
    Uniform R (look part : Computation ε σ α) := by
  intro s t h
  rw [runFrom_look, runFrom_look, hpart s t h]
  exact ⟨rfl, h⟩

theorem bind {x : Computation ε σ α} {f : α → Computation ε σ β} (hx : Uniform R x)
    (hf : ∀ a, Uniform R (f a)) : Uniform R (x >>= f) := by
  intro s t h
  obtain ⟨hresult, hstate⟩ := hx s t h
  rw [runFrom_bind, runFrom_bind]
  rcases hs : runFrom s x with ⟨e | a, s'⟩
  · rcases ht : runFrom t x with ⟨e' | a', t'⟩
    · rw [hs, ht] at hresult hstate
      exact ⟨by simpa using hresult, hstate⟩
    · rw [hs, ht] at hresult
      exact nomatch hresult
  · rcases ht : runFrom t x with ⟨e' | a', t'⟩
    · rw [hs, ht] at hresult
      exact nomatch hresult
    · rw [hs, ht] at hresult hstate
      obtain rfl : a = a' := by simpa using hresult
      exact hf a s' t' hstate

end Uniform

end Computation

open PromptMarkup.Computation

/-! ### Pointers -/

namespace Pointers

variable {rho : Nat → Nat} {pointers : Pointers}

/-- The same names in other slots. -/
def renamed (rho : Nat → Nat) (pointers : Pointers) : Pointers :=
  pointers.map fun kv => (kv.1, rho kv.2)

@[simp] theorem keys_renamed (rho : Nat → Nat) (pointers : Pointers) :
    Fields.keys (renamed rho pointers) = Fields.keys pointers := by
  simp [renamed, Fields.keys]

theorem get?_renamed (rho : Nat → Nat) (pointers : Pointers) (name : String) :
    Fields.get? (renamed rho pointers) name = (Fields.get? pointers name).map rho := by
  induction pointers with
  | nil => rfl
  | cons kv rest ih =>
    obtain ⟨k, i⟩ := kv
    by_cases hk : k = name
    · simp [renamed, Fields.get?, hk]
    · rw [renamed] at ih
      simp [renamed, Fields.get?, hk, ih]

theorem renamed_put (rho : Nat → Nat) (pointers : Pointers) (name : String) (i : Nat) :
    renamed rho (Fields.put pointers name i) = Fields.put (renamed rho pointers) name (rho i) := by
  induction pointers with
  | nil => rfl
  | cons kv rest ih =>
    obtain ⟨k, j⟩ := kv
    by_cases hk : k = name
    · simp [renamed, Fields.put, hk]
    · rw [renamed, renamed] at ih
      simp [renamed, Fields.put, hk, ih]

/-- Slots that stay where they are. -/
theorem renamed_of_below {bound : Nat} (h : Below pointers bound)
    (hrho : ∀ i, i < bound → rho i = i) :
    renamed rho pointers = pointers := by
  have hsame : ∀ kv ∈ pointers, (kv.1, rho kv.2) = kv := by
    intro kv hkv
    rw [hrho kv.2 (h kv hkv)]
  rw [renamed, List.map_congr_left hsame, List.map_id']

@[simp] theorem renamed_id (pointers : Pointers) : renamed (fun i => i) pointers = pointers := by
  simp [renamed]

end Pointers

/-! ### Scopes -/

/-- The same values in other slots.  A slot that will be added next to one stash corresponds to the
one that will be added to the other. -/
structure Stash.Renamed (rho : Nat → Nat) (s t : Stash) : Prop where
  injective : ∀ i j, rho i = rho j → i = j
  fresh : ∀ k, rho (s.slots.size + k) = t.slots.size + k
  slots : ∀ i, t.slots[rho i]? = s.slots[i]?
  lookups : t.lookups = s.lookups

/-- The same names with the same values, in other slots. -/
structure Scope.Renamed (rho : Nat → Nat) (s t : Scope) : Prop where
  stash : s.stash.Renamed rho t.stash
  pointers : t.pointers = s.pointers.renamed rho

theorem Stash.Renamed.refl (s : Stash) : s.Renamed (fun i => i) s :=
  ⟨fun _ _ h => h, fun _ => rfl, fun _ => rfl, rfl⟩

theorem Stash.Renamed.eq {s t : Stash} (h : s.Renamed (fun i => i) t) : t = s := by
  obtain ⟨slots, lookups⟩ := s
  obtain ⟨slots', lookups'⟩ := t
  obtain rfl : slots' = slots := Array.ext_getElem? h.slots
  obtain rfl : lookups' = lookups := h.lookups
  rfl

namespace Scope.Renamed

variable {rho : Nat → Nat} {s t : Scope}

theorem eq (h : s.Renamed (fun i => i) t) : t = s := by
  obtain ⟨stash, pointers⟩ := s
  obtain ⟨stash', pointers'⟩ := t
  obtain rfl : stash' = stash := h.stash.eq
  obtain rfl : pointers' = pointers := h.pointers.trans (Pointers.renamed_id _)
  rfl

theorem sees (h : s.Renamed rho t) (name : String) : t.sees name = s.sees name := by
  rw [Scope.sees, Fields.has, h.pointers, Pointers.get?_renamed, Option.isSome_map]
  rfl

theorem get? (h : s.Renamed rho t) (name : String) : t.get? name = s.get? name := by
  rw [Scope.get?, h.pointers, Pointers.get?_renamed, Scope.get?]
  cases Fields.get? s.pointers name with
  | none => rfl
  | some i => exact h.stash.slots i

theorem set (h : s.Renamed rho t) (name : String) (v : Value) :
    (s.set name v).Renamed rho (t.set name v) := by
  obtain ⟨⟨hinj, hfresh, hslots, hlookups⟩, hpointers⟩ := h
  unfold Scope.set
  rw [hpointers, Pointers.get?_renamed]
  cases hname : Fields.get? s.pointers name with
  | some i =>
    refine ⟨⟨hinj, fun k => ?_, fun j => ?_, hlookups⟩, rfl⟩
    · simpa using hfresh k
    · show (t.stash.slots.setIfInBounds (rho i) v)[rho j]? = (s.stash.slots.setIfInBounds i v)[j]?
      -- a slot is there on one side if it is on the other
      have hbound : ∀ k, rho k < t.stash.slots.size ↔ k < s.stash.slots.size := by
        intro k
        rw [← Nat.not_le, ← Nat.not_le, ← Array.getElem?_eq_none_iff, hslots,
          Array.getElem?_eq_none_iff]
      rw [Array.getElem?_setIfInBounds, Array.getElem?_setIfInBounds, hslots]
      by_cases hij : i = j
      · subst hij
        simp [hbound]
      · rw [if_neg hij, if_neg fun heq => hij (hinj i j heq)]
  | none =>
    have hnext : rho s.stash.slots.size = t.stash.slots.size := hfresh 0
    refine ⟨⟨hinj, fun k => ?_, fun j => ?_, hlookups⟩, ?_⟩
    · show rho ((s.stash.slots.push v).size + k) = (t.stash.slots.push v).size + k
      have hshift : s.stash.slots.size + 1 + k = s.stash.slots.size + (k + 1) := by omega
      rw [Array.size_push, Array.size_push, hshift, hfresh]
      omega
    · show (t.stash.slots.push v)[rho j]? = (s.stash.slots.push v)[j]?
      rw [Array.getElem?_push, Array.getElem?_push, hslots]
      by_cases hj : j = s.stash.slots.size
      · rw [if_pos hj, hj, if_pos hnext]
      · rw [if_neg hj, if_neg fun heq => hj (hinj j _ (heq.trans hnext.symm))]
    · show Fields.put _ name t.stash.slots.size = Pointers.renamed rho (Fields.put _ _ _)
      rw [Pointers.renamed_put, hnext]

end Scope.Renamed

/-! ### Evaluations -/

namespace Evaluation

variable {rho : Nat → Nat} {R : Scope → Scope → Prop}

theorem uniform_fail {α : Type} (fault : Fault) (span : Span) :
    Uniform R (fail fault span : Evaluation α) :=
  Uniform.throw _

theorem uniform_ofResult {α : Type} (span : Span) (x : Except Fault α) :
    Uniform R (ofResult span x) := by
  rcases x with f | a
  · exact uniform_fail f span
  · exact Uniform.pure a

theorem uniform_readVariable (name : String) (span : Span) :
    Uniform (Scope.Renamed rho) (readVariable name span) := by
  refine Uniform.bind (Uniform.look fun s t h => (h.get? name).symm) fun v => ?_
  cases v with
  | none => exact uniform_fail _ _
  | some v => exact Uniform.pure v

theorem uniform_writeVariable (name : String) (v : Value) :
    Uniform (Scope.Renamed rho) (writeVariable name v) :=
  Uniform.modify fun _ _ h => h.set name v

theorem uniform_readProperty (v : Value) (key : String) (span : Span) :
    Uniform (Scope.Renamed rho) (readProperty v key span) := by
  refine Uniform.bind (Uniform.look fun s t h => h.stash.lookups.symm) fun _ => ?_
  refine Uniform.bind (Uniform.modify fun s t h => ?_) fun _ => uniform_ofResult _ _
  obtain ⟨⟨hinj, hfresh, hslots, hlookups⟩, hpointers⟩ := h
  exact ⟨⟨hinj, hfresh, hslots, congrArg (· + 1) hlookups⟩, hpointers⟩

theorem uniform_readPath (span : Span) (keys : List String) (v : Value) :
    Uniform (Scope.Renamed rho) (readPath span keys v) := by
  induction keys generalizing v with
  | nil => exact Uniform.pure v
  | cons key keys ih => exact Uniform.bind (uniform_readProperty v key span) ih

theorem uniform_valueOf (name : String) : Uniform (Scope.Renamed rho) (valueOf name) :=
  Uniform.look fun s t h => by rw [h.get? name]

theorem uniform_writePath (name : String) (keys : List String) (v : Value) (span : Span) :
    Uniform (Scope.Renamed rho) (writePath name keys v span) :=
  Uniform.bind (uniform_valueOf name) fun _ =>
    Uniform.bind (uniform_ofResult _ _) fun _ => uniform_writeVariable _ _

theorem uniform_callFunction (host : Host) (callee : Expr) (span : Span) (f : Value)
    (args : List Value) : Uniform R (callFunction host callee span f args) := by
  unfold callFunction
  repeat' split
  all_goals first | exact Uniform.pure _ | exact uniform_fail _ _

end Evaluation

namespace Expr

open Evaluation

variable {rho : Nat → Nat} {R : Scope → Scope → Prop} {host : Host}

theorem uniform_items {es : List Element}
    (ih : ∀ x ∈ es.map Element.expr, Uniform R (links host x)) :
    Uniform R (items host es) := by
  induction es with
  | nil => exact Uniform.pure []
  | cons e rest ihr =>
    have he : Uniform R (links host e.expr) := ih _ List.mem_cons_self
    have hrest : Uniform R (items host rest) :=
      ihr fun x hx => ih x (List.mem_cons_of_mem _ hx)
    cases e with
    | item x => exact Uniform.bind he fun _ => Uniform.bind hrest fun _ => Uniform.pure _
    | spread x =>
      exact Uniform.bind he fun _ => Uniform.bind (uniform_ofResult _ _) fun _ =>
        Uniform.bind hrest fun _ => Uniform.pure _

theorem uniform_memberKey {k : Key}
    (ih : ∀ x ∈ k.exprs, Uniform R (links host x)) :
    Uniform R (memberKey host k) := by
  cases k with
  | fixed name => exact Uniform.pure name
  | computed e =>
    exact Uniform.bind (ih e (by simp [Key.exprs])) fun _ => uniform_ofResult _ _

theorem uniform_propertyKey {p : Property}
    (ih : ∀ x ∈ p.exprs, Uniform R (links host x)) :
    Uniform R (propertyKey host p) := by
  cases p with
  | named name => exact Uniform.pure name
  | computed e => exact Uniform.bind (ih e (by simp [Property.exprs])) fun _ => Uniform.pure _

theorem uniform_fields {ms : List Member}
    (ih : ∀ x ∈ ms.flatMap Member.exprs, Uniform R (links host x))
    (before : Fields Value) : Uniform R (fields host before ms) := by
  induction ms generalizing before with
  | nil => exact Uniform.pure before
  | cons m rest ihr =>
    have hrest : ∀ before, Uniform R (fields host before rest) :=
      ihr fun x hx => ih x (List.mem_append_right _ hx)
    cases m with
    | property key value =>
      have hk : Uniform R (memberKey host key) :=
        uniform_memberKey fun x hx => ih x (by simp [Member.exprs, hx])
      have hv : Uniform R (links host value) :=
        ih value (by simp [Member.exprs])
      exact Uniform.bind hk fun _ => Uniform.bind hv fun _ => hrest _
    | spread e =>
      have he : Uniform R (links host e) := ih e (by simp [Member.exprs])
      exact Uniform.bind he fun _ => Uniform.bind (uniform_ofResult _ _) fun _ => hrest _

theorem uniform_inOrder {es : List Expr}
    (ih : ∀ x ∈ es, Uniform R (links host x)) (last : Value) :
    Uniform R (inOrder host last es) := by
  induction es generalizing last with
  | nil => exact Uniform.pure last
  | cons e rest ihr =>
    exact Uniform.bind (ih e List.mem_cons_self) fun _ =>
      ihr (fun x hx => ih x (List.mem_cons_of_mem _ hx)) _

theorem uniform_assignment {s : Span} {op : AssignOp} {target value : Expr}
    (ht : Uniform (Scope.Renamed rho) (targetPath host target))
    (hv : Uniform (Scope.Renamed rho) (links host value)) :
    Uniform (Scope.Renamed rho) (links host (assignment s op target value)) := by
  cases op with
  | assign =>
    have other : Uniform (Scope.Renamed rho) (do
        let place ← targetPath host target
        let v := orUndefined (← links host value)
        writePath place.1 place.2 v target.span
        return some v : Evaluation (Option Value)) :=
      Uniform.bind ht fun _ => Uniform.bind hv fun _ =>
        Uniform.bind (uniform_writePath _ _ _ _) fun _ => Uniform.pure _
    -- assigning to a name writes the variable; any other target has a path to write
    cases target with
    | identifier t name =>
      exact Uniform.bind hv fun _ => Uniform.bind (uniform_writeVariable _ _) fun _ =>
        Uniform.pure _
    | _ => exact other
  | binary op hop =>
    exact Uniform.bind ht fun _ => Uniform.bind (uniform_valueOf _) fun _ =>
      Uniform.bind (uniform_readPath _ _ _) fun _ => Uniform.bind hv fun _ =>
        Uniform.bind (uniform_ofResult _ _) fun _ =>
          Uniform.bind (uniform_writePath _ _ _ _) fun _ => Uniform.pure _
  | logical op =>
    refine Uniform.bind ht fun _ => Uniform.bind (uniform_valueOf _) fun _ =>
      Uniform.bind (uniform_readPath _ _ _) fun old => ?_
    dsimp only
    split
    · exact Uniform.pure _
    · exact Uniform.bind hv fun _ => Uniform.bind (uniform_writePath _ _ _ _) fun _ =>
        Uniform.pure _

theorem uniform_update {s : Span} {op : UpdateOp} {leading : Bool} {argument : Expr}
    (ht : Uniform (Scope.Renamed rho) (targetPath host argument))
    (hv : Uniform (Scope.Renamed rho) (links host argument)) :
    Uniform (Scope.Renamed rho) (links host (update s op leading argument)) := by
  refine Uniform.bind hv fun v => ?_
  split
  · exact Uniform.bind ht fun _ => Uniform.bind (uniform_writePath _ _ _ _) fun _ =>
      Uniform.pure _
  · exact uniform_fail _ _

/-- An expression, and a target, is evaluated alike in renamed scopes. -/
theorem uniform_links (rho : Nat → Nat) (host : Host) (e : Expr) :
    Uniform (Scope.Renamed rho) (links host e) ∧
      Uniform (Scope.Renamed rho) (targetPath host e) := by
  induction e using Expr.induct with
  | step e ih =>
    -- a value and a target both evaluate their parts, so both go into one induction
    have ihl : ∀ x ∈ e.parts, Uniform (Scope.Renamed rho) (links host x) :=
      fun x hx => (ih x hx).1
    have iht : ∀ x ∈ e.parts, Uniform (Scope.Renamed rho) (targetPath host x) :=
      fun x hx => (ih x hx).2
    refine ⟨?_, ?_⟩
    · cases e with
      | literal s l => exact Uniform.pure _
      | identifier s name =>
        exact Uniform.bind (uniform_readVariable _ _) fun _ => Uniform.pure _
      | array s elements => exact Uniform.bind (uniform_items ihl) fun _ => Uniform.pure _
      | object s members => exact Uniform.bind (uniform_fields ihl _) fun _ => Uniform.pure _
      | sequence s es => exact Uniform.bind (uniform_inOrder ihl _) fun _ => Uniform.pure _
      | binary s op left right =>
        unfold links
        split
        · exact uniform_fail _ _
        · exact Uniform.bind (ihl left (by simp [parts])) fun _ =>
            Uniform.bind (ihl right (by simp [parts])) fun _ =>
              Uniform.bind (uniform_ofResult _ _) fun _ => Uniform.pure _
      | logical s op left right =>
        refine Uniform.bind (ihl left (by simp [parts])) fun _ => ?_
        dsimp only
        split
        · exact Uniform.pure _
        · exact Uniform.bind (ihl right (by simp [parts])) fun _ => Uniform.pure _
      | unary s op argument =>
        unfold links
        split
        · exact uniform_fail _ _
        · exact Uniform.bind (ihl argument (by simp [parts])) fun _ =>
            Uniform.bind (uniform_ofResult _ _) fun _ => Uniform.pure _
      | update s op leading argument =>
        exact uniform_update (iht argument (by simp [parts])) (ihl argument (by simp [parts]))
      | assignment s op target value =>
        exact uniform_assignment (iht target (by simp [parts])) (ihl value (by simp [parts]))
      | conditional s test consequent alternate =>
        refine Uniform.bind (ihl test (by simp [parts])) fun _ => ?_
        split
        · exact Uniform.bind (ihl consequent (by simp [parts])) fun _ => Uniform.pure _
        · exact Uniform.bind (ihl alternate (by simp [parts])) fun _ => Uniform.pure _
      | member s owner property optional =>
        -- a missing owner or an optional link cuts the chain before the property is computed
        refine Uniform.bind (ihl owner (by simp [parts])) fun o => ?_
        have hp : Uniform (Scope.Renamed rho) (propertyKey host property) :=
          uniform_propertyKey fun x hx => ihl x (List.mem_cons_of_mem _ hx)
        cases o with
        | none => exact Uniform.pure none
        | some v =>
          dsimp only
          split
          · exact Uniform.pure none
          · exact Uniform.bind hp fun _ => Uniform.bind (uniform_readProperty _ _ _) fun _ =>
              Uniform.pure _
      | call s callee arguments optional =>
        refine Uniform.bind (ihl callee (by simp [parts])) fun o => ?_
        have ha : Uniform (Scope.Renamed rho) (items host arguments) :=
          uniform_items fun x hx => ihl x (List.mem_cons_of_mem _ hx)
        cases o with
        | none => exact Uniform.pure none
        | some f =>
          dsimp only
          split
          · exact Uniform.pure none
          · exact Uniform.bind ha fun _ => Uniform.bind (uniform_callFunction _ _ _ _ _) fun _ =>
              Uniform.pure _
      | chain s inner => exact Uniform.bind (ihl inner (by simp [parts])) fun _ => Uniform.pure _
    -- only names and plain members are targets
    · cases e with
      | identifier s name =>
        refine Uniform.bind (Uniform.look fun s t h => (h.sees name).symm) fun seen => ?_
        split
        · exact Uniform.pure _
        · exact uniform_fail _ _
      | member s owner property optional =>
        cases optional with
        | true => exact uniform_fail _ _
        | false =>
          have hp : Uniform (Scope.Renamed rho) (propertyKey host property) :=
            uniform_propertyKey fun x hx => ihl x (List.mem_cons_of_mem _ hx)
          exact Uniform.bind (iht owner (by simp [parts])) fun _ =>
            Uniform.bind hp fun _ => Uniform.pure _
      | _ => exact uniform_fail _ _

/-- An expression has the same value in renamed scopes, and leaves renamed scopes behind. -/
theorem uniform_evaluate (rho : Nat → Nat) (host : Host) (e : Expr) :
    Uniform (Scope.Renamed rho) (e.evaluate host) := by
  have h : e.evaluate host = e.links host >>= fun v => pure (orUndefined v) := by
    simp [evaluate]
  rw [h]
  exact Uniform.bind (uniform_links rho host e).1 fun _ => Uniform.pure _

end Expr

end PromptMarkup

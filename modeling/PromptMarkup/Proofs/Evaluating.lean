/-
What an evaluation can do.

* `Expr.DeclaresNothing` — an expression without a plain assignment to a name;
* `Scope.Valid` — all names that are visible have slots, as in every scope that a run comes to;
* `Expr.names` — the names in an expression;
* `evaluating` — the law that an evaluation only adds slots, keeps the names that are visible, and
  fails only for reasons that depend on values, or for a name of its own that is not visible;
* `Expr.respects_evaluate` — an expression that declares nothing keeps the names and misses only its
  own, and one whose operators can be evaluated fails for no structural reason.

Design notes: the parts of the law are proved together, in one induction, since they follow the same
steps.  The last ones have two conditions, `still` and `sure`, that may be taken as false where they
do not matter.
-/
import PromptMarkup.Expr.Evaluation
import PromptMarkup.Proofs.Operators

namespace PromptMarkup

open PromptMarkup.Computation

/-! ### Results -/

/-- A result whose fault comes from values. -/
def SoundResult {α : Type} (x : Except Fault α) : Prop :=
  ∀ f, x = .error f → f.isOfValues = true

theorem SoundResult.ok {α : Type} (a : α) : SoundResult (.ok a) :=
  fun _ h => nomatch h

theorem SoundResult.error {α : Type} {f : Fault} (h : f.isOfValues = true) :
    SoundResult (.error f : Except Fault α) := by
  intro g hg
  cases hg
  exact h

theorem SoundResult.map {α β : Type} {x : Except Fault α} (h : SoundResult x) (g : α → β) :
    SoundResult (x.map g) := by
  rcases x with f | a
  · exact SoundResult.error (h f rfl)
  · exact SoundResult.ok _

/-! ### Values -/

theorem Value.sound_property (i : Identity) (v : Value) (key : String) :
    SoundResult (v.property i key) := by
  unfold Value.property
  repeat' split
  all_goals first | exact SoundResult.ok _ | exact SoundResult.error rfl

theorem Value.sound_write (new : Value) (keys : List String) (v : Value) :
    SoundResult (v.write keys new) := by
  -- the induction is on the path; only objects and arrays have parts to write into
  induction keys generalizing v with
  | nil =>
    rw [Value.write]
    exact SoundResult.ok _
  | cons key keys ih =>
    cases v with
    | object fields => exact (ih _).map _
    | array items =>
      simp only [Value.write]
      split
      · exact SoundResult.error rfl
      · split
        · exact SoundResult.error rfl
        · exact (ih _).map _
    | undefined => exact SoundResult.error rfl
    | null => exact SoundResult.error rfl
    | boolean b => exact SoundResult.error rfl
    | number x => exact SoundResult.error rfl
    | string s => exact SoundResult.error rfl
    | function i m => exact SoundResult.error rfl

theorem Value.sound_spreadItems (v : Value) : SoundResult v.spreadItems := by
  cases v <;> first | exact SoundResult.ok _ | exact SoundResult.error rfl

theorem Value.sound_spreadFields (v : Value) : SoundResult v.spreadFields := by
  cases v <;> first | exact SoundResult.ok _ | exact SoundResult.error rfl

theorem Value.sound_asKey (v : Value) : SoundResult v.asKey := by
  cases v <;> first | exact SoundResult.ok _ | exact SoundResult.error rfl

theorem Value.sound_hasKey (v : Value) (key : String) : SoundResult (v.hasKey key) := by
  cases v <;> first | exact SoundResult.ok _ | exact SoundResult.error rfl

theorem BinaryOp.sound_apply {op : BinaryOp} (h : op.isSupported = true) (a b : Value) :
    SoundResult (op.apply a b) := by
  cases op with
  | instanceOf => exact absurd h (by decide)
  | isIn => exact (Value.sound_hasKey _ _).map _
  | _ => exact SoundResult.ok _

theorem UnaryOp.sound_apply {op : UnaryOp} (h : op.isSupported = true) (v : Value) :
    SoundResult (op.apply v) := by
  cases op with
  | void => exact absurd h (by decide)
  | delete => exact absurd h (by decide)
  | _ => exact SoundResult.ok _

/-! ### Scopes -/

theorem Fields.mem_put {α : Type} {fields : Fields α} {key : String} {v : α} {kv : String × α}
    (h : kv ∈ fields.put key v) : kv ∈ fields ∨ kv = (key, v) := by
  induction fields with
  | nil => exact .inr (List.mem_singleton.1 h)
  | cons head rest ih =>
    obtain ⟨k, w⟩ := head
    by_cases hk : k = key
    · rw [Fields.put, if_pos hk, hk] at h
      rcases List.mem_cons.1 h with h | h
      · exact .inr h
      · exact .inl (List.mem_cons_of_mem _ h)
    · rw [Fields.put, if_neg hk] at h
      rcases List.mem_cons.1 h with h | h
      · exact .inl (h ▸ List.mem_cons_self)
      · rcases ih h with h | h
        · exact .inl (List.mem_cons_of_mem _ h)
        · exact .inr h

/-- Names have slots below a bound. -/
def Pointers.Below (pointers : Pointers) (bound : Nat) : Prop :=
  ∀ kv ∈ pointers, kv.2 < bound

theorem Pointers.Below.mono {pointers : Pointers} {m n : Nat} (h : Below pointers m)
    (hmn : m ≤ n) : Below pointers n :=
  fun kv hkv => Nat.lt_of_lt_of_le (h kv hkv) hmn

/-- All names that are visible have slots. -/
def Scope.Valid (s : Scope) : Prop :=
  Pointers.Below s.pointers s.stash.slots.size

/-- Every name that is visible in the first of two scopes has the same slot in the second. -/
def Pointers.Keeps (p q : Pointers) : Prop :=
  ∀ name slot, p.get? name = some slot → q.get? name = some slot

theorem Pointers.Keeps.refl (p : Pointers) : p.Keeps p :=
  fun _ _ h => h

theorem Pointers.Keeps.trans {p q r : Pointers} (h : p.Keeps q) (h' : q.Keeps r) : p.Keeps r :=
  fun name slot hp => h' name slot (h name slot hp)

/-- A scope may become another one: slots are only added, names get slots, and those that have one
keep it. -/
structure Scope.Leads (s t : Scope) : Prop where
  size : s.stash.slots.size ≤ t.stash.slots.size
  valid : s.Valid → t.Valid
  keeps : s.pointers.Keeps t.pointers

theorem Scope.Leads.refl (s : Scope) : s.Leads s :=
  ⟨Nat.le_refl _, fun h => h, .refl _⟩

theorem Scope.Leads.trans {s t u : Scope} (h : s.Leads t) (h' : t.Leads u) : s.Leads u :=
  ⟨Nat.le_trans h.size h'.size, fun hs => h'.valid (h.valid hs), h.keeps.trans h'.keeps⟩

theorem Scope.keeps_set (s : Scope) (name : String) (v : Value) :
    s.pointers.Keeps (s.set name v).pointers := by
  intro other slot hslot
  unfold Scope.set
  split
  · exact hslot
  · next hnone =>
    have hother : name ≠ other := by
      rintro rfl
      exact nomatch hnone.symm.trans hslot
    simpa [Fields.get?_put, hother] using hslot

theorem Scope.leads_set (s : Scope) (name : String) (v : Value) : s.Leads (s.set name v) := by
  have hkeeps := s.keeps_set name v
  unfold Scope.set at hkeeps ⊢
  split at hkeeps
  · refine ⟨?_, fun h kv hkv => ?_, hkeeps⟩
    · simp
    · simpa using h kv hkv
  · refine ⟨?_, fun h kv hkv => ?_, hkeeps⟩
    · simp
    · rcases Fields.mem_put hkv with hkv | rfl
      · have := h kv hkv
        simp only [Array.size_push]
        omega
      · simp

theorem Scope.valid_ofFields (fields : Fields Value) : (Scope.ofFields fields).Valid := by
  have hleads : ∀ (fields : Fields Value) (s : Scope), s.Leads
      (fields.foldl (fun scope field => scope.set field.1 field.2) s) := by
    intro fields
    induction fields with
    | nil => exact fun s => Scope.Leads.refl s
    | cons field rest ih => exact fun s => (s.leads_set _ _).trans (ih _)
  exact (hleads fields (Scope.ofStash .empty)).valid fun _ h => nomatch h

theorem Fields.mem_of_get? {α : Type} {fields : Fields α} {key : String} {v : α}
    (h : fields.get? key = some v) : (key, v) ∈ fields := by
  induction fields with
  | nil => exact nomatch h
  | cons head rest ih =>
    obtain ⟨k, w⟩ := head
    rw [Fields.get?] at h
    split at h
    · next hk =>
      obtain rfl := Option.some.inj h
      exact hk ▸ List.mem_cons_self
    · exact List.mem_cons_of_mem _ (ih h)

/-- A name without a value is not visible. -/
theorem Scope.sees_eq_false {s : Scope} {name : String} (hvalid : s.Valid)
    (h : s.get? name = none) :
    s.sees name = false := by
  rw [Scope.sees, Fields.has]
  cases hpointer : s.pointers.get? name with
  | none => rfl
  | some i =>
    have hi : i < s.stash.slots.size := hvalid _ (Fields.mem_of_get? hpointer)
    rw [Scope.get?, hpointer, Option.bind_some, Array.getElem?_eq_getElem hi] at h
    cases h

theorem Scope.sees_of_get? {s : Scope} {name : String} {v : Value} (h : s.get? name = some v) :
    s.sees name = true := by
  obtain ⟨slot, hslot, -⟩ := Option.bind_eq_some_iff.1 h
  exact Option.isSome_iff_exists.2 ⟨slot, hslot⟩

/-- A write to a name that is visible makes no new name visible. -/
theorem Scope.pointers_set_of_sees {s : Scope} {name : String} (h : s.sees name = true)
    (v : Value) :
    (s.set name v).pointers = s.pointers := by
  obtain ⟨i, hi⟩ := Option.isSome_iff_exists.1 h
  rw [Scope.set, hi]

/-! ### The law -/

/-- A plain assignment to a name. -/
def Expr.isDeclaration : Expr → Bool
  | .assignment _ .assign (.identifier _ _) _ => true
  | _ => false

/-- The name that an expression is. -/
def Expr.name? : Expr → Option String
  | .identifier _ name => some name
  | _ => none

/-- The names in an expression, those that are only assigned to included. -/
def Expr.names (e : Expr) : List String :=
  e.subterms.filterMap Expr.name?

theorem Expr.names_eq (e : Expr) : e.names = e.name?.toList ++ e.parts.flatMap names := by
  unfold names
  rw [subterms_eq, List.filterMap_cons, List.filterMap_flatMap]
  cases e.name? <;> rfl

theorem Expr.names_subset_of_part {e x : Expr} (hx : x ∈ e.parts) : x.names ⊆ e.names := by
  intro name hname
  rw [names_eq e]
  exact List.mem_append_right _ (List.mem_flatMap.2 ⟨x, hx, hname⟩)

theorem Expr.name_mem_names {s : Span} {name : String} : name ∈ (Expr.identifier s name).names :=
  List.mem_cons_self

/-- An expression without a plain assignment to a name. -/
def Expr.DeclaresNothing (e : Expr) : Prop :=
  ∀ x ∈ e.subterms, x.isDeclaration = false

instance (e : Expr) : Decidable e.DeclaresNothing :=
  inferInstanceAs (Decidable (∀ x ∈ e.subterms, x.isDeclaration = false))

theorem Expr.DeclaresNothing.part {e x : Expr} (h : DeclaresNothing e) (hx : x ∈ e.parts) :
    DeclaresNothing x :=
  fun y hy => h y (mem_subterms_of_part hx hy)

theorem Expr.DeclaresNothing.self {e : Expr} (h : DeclaresNothing e) :
    e.isDeclaration = false :=
  h e (mem_subterms_self e)

/-- A name is missing only if it is one of the given names and is not visible. -/
def MissingOnly (names : List String) (s : Scope) (f : Fault) : Prop :=
  s.Valid → ∀ name, f = .undeclared name → name ∈ names ∧ s.sees name = false

/-- The law of an evaluation that reads the given names: slots are only added, the names that are
visible stay the same, and faults depend on values. -/
def evaluating (sure still : Prop) (names : List String) : Law Problem Scope where
  done s t := s.Leads t ∧ (still → t.pointers = s.pointers)
  stop s p t := s.Leads t ∧ (sure → p.fault.isStructural = false) ∧
    (still → MissingOnly names s p.fault)
  refl s := ⟨Scope.Leads.refl s, fun _ => rfl⟩
  trans h h' := ⟨h.1.trans h'.1, fun hs => (h'.2 hs).trans (h.2 hs)⟩
  back := by
    intro s t p u h h'
    refine ⟨h.1.trans h'.1, h'.2.1, fun hs hvalid name hname => ?_⟩
    obtain ⟨hmem, hsees⟩ := h'.2.2 hs (h.1.valid hvalid) name hname
    rw [Scope.sees, h.2 hs] at hsees
    exact ⟨hmem, hsees⟩

namespace Evaluation

variable {sure still : Prop} {names : List String}

theorem respects_fail {α : Type} {fault : Fault} (h : sure → fault.isStructural = false)
    (h' : ∀ name, fault ≠ .undeclared name) (span : Span) :
    Respects (evaluating sure still names) (fail fault span : Evaluation α) :=
  Respects.throw fun s => ⟨Scope.Leads.refl s, h, fun _ _ name hname => absurd hname (h' name)⟩

theorem respects_fail_of_values {α : Type} {fault : Fault} (h : fault.isOfValues = true)
    (span : Span) : Respects (evaluating sure still names) (fail fault span : Evaluation α) :=
  respects_fail (fun _ => Fault.not_structural_of_isOfValues h)
    (Fault.ne_undeclared_of_isOfValues h)
    span

theorem respects_ofResult {α : Type} {x : Except Fault α} (h : SoundResult x) (span : Span) :
    Respects (evaluating sure still names) (ofResult span x) := by
  rcases x with f | a
  · exact respects_fail_of_values (h f rfl) span
  · exact Respects.pure a

/-- A name that is not visible may be missing. -/
theorem respectsAt_missing {α : Type} {s : Scope} {name : String} (hmem : name ∈ names)
    (hmissing : s.Valid → s.sees name = false) (span : Span) :
    RespectsAt (evaluating sure still names) s (fail (.undeclared name) span : Evaluation α) := by
  refine RespectsAt.of_error rfl ⟨Scope.Leads.refl s, fun _ => rfl, fun _ hvalid other hother => ?_⟩
  obtain rfl := Fault.undeclared.inj hother
  exact ⟨hmem, hmissing hvalid⟩

theorem respects_readVariable {name : String} (hmem : name ∈ names) (span : Span) :
    Respects (evaluating sure still names) (readVariable name span) := by
  refine fun s => RespectsAt.look_bind ?_
  cases hget : s.get? name with
  | none => exact respectsAt_missing hmem (fun hvalid => Scope.sees_eq_false hvalid hget) span
  | some v => exact Respects.pure v s

theorem runFrom_readVariable_eq_ok {s t : Scope} {name : String} {span : Span} {v : Value}
    (h : runFrom s (readVariable name span) = (.ok v, t)) : s.get? name = some v ∧ s = t := by
  unfold readVariable at h
  rw [runFrom_bind_ok (runFrom_look s _)] at h
  split at h
  · next hget =>
    obtain ⟨hv, rfl⟩ := Prod.mk.inj h
    exact ⟨hget.trans (congrArg some (Except.ok.inj hv)), rfl⟩
  · exact nomatch (Prod.mk.inj h).1

theorem respects_readProperty (v : Value) (key : String) (span : Span) :
    Respects (evaluating sure still names) (readProperty v key span) :=
  Respects.bind (Respects.look _) fun _ =>
    Respects.bind (Respects.modify fun _ =>
      ⟨⟨Nat.le_refl _, fun h => h, .refl _⟩, fun _ => rfl⟩) fun _ =>
      respects_ofResult (Value.sound_property _ _ _) span

theorem runFrom_readProperty_eq_ok {s t : Scope} {v part : Value} {key : String} {span : Span}
    (h : runFrom s (readProperty v key span) = (.ok part, t)) :
    v.property (.made s.stash.lookups) key = .ok part ∧
      { s with stash.lookups := s.stash.lookups + 1 } = t := by
  have hrun : runFrom s (readProperty v key span) =
      runFrom { s with stash.lookups := s.stash.lookups + 1 }
        (ofResult span (v.property (.made s.stash.lookups) key)) := rfl
  rw [hrun] at h
  cases hproperty : v.property (.made s.stash.lookups) key with
  | error fault =>
    rw [hproperty] at h
    exact nomatch (Prod.mk.inj h).1
  | ok w =>
    rw [hproperty] at h
    obtain ⟨hw, ht⟩ := Prod.mk.inj h
    exact ⟨congrArg Except.ok (Except.ok.inj hw), ht⟩

theorem respects_readPath (span : Span) (keys : List String) (v : Value) :
    Respects (evaluating sure still names) (readPath span keys v) := by
  induction keys generalizing v with
  | nil => exact Respects.pure v
  | cons key keys ih => exact Respects.bind (respects_readProperty v key span) fun w => ih w

/-- A name that is visible may be written. -/
theorem respects_writePath {s : Scope} {name : String} (h : still → s.sees name = true)
    (keys : List String) (v : Value) (span : Span) :
    RespectsAt (evaluating sure still names) s (writePath name keys v span) := by
  refine RespectsAt.look_bind ?_
  refine RespectsAt.bind (respects_ofResult (Value.sound_write _ _ _) span s)
    fun new t _ ht => ?_
  refine RespectsAt.of_ok rfl ⟨Scope.leads_set t name new, fun hstill => ?_⟩
  refine Scope.pointers_set_of_sees ?_ new
  rw [Scope.sees, ht.2 hstill]
  exact h hstill

theorem respects_callFunction (host : Host) (callee : Expr) (span : Span) (f : Value)
    (args : List Value) :
    Respects (evaluating sure still names) (callFunction host callee span f args) := by
  unfold callFunction
  repeat' split
  all_goals first | exact Respects.pure _ | exact respects_fail_of_values rfl _

end Evaluation

namespace Expr

open Evaluation

variable {sure still : Prop} {names : List String} {host : Host}

theorem respects_items {es : List Element}
    (ih : ∀ x ∈ es.map Element.expr, Respects (evaluating sure still names) (links host x)) :
    Respects (evaluating sure still names) (items host es) := by
  induction es with
  | nil => exact Respects.pure []
  | cons e rest ihr =>
    have h1 : Respects (evaluating sure still names) (links host e.expr) := ih _ List.mem_cons_self
    have h2 : Respects (evaluating sure still names) (items host rest) :=
      ihr fun x hx => ih x (List.mem_cons_of_mem _ hx)
    cases e with
    | item x => exact Respects.bind h1 fun _ => Respects.bind h2 fun _ => Respects.pure _
    | spread x =>
      exact Respects.bind h1 fun v =>
        Respects.bind (respects_ofResult (Value.sound_spreadItems _) _) fun _ =>
          Respects.bind h2 fun _ => Respects.pure _

theorem respects_memberKey {k : Key}
    (ih : ∀ x ∈ k.exprs, Respects (evaluating sure still names) (links host x)) :
    Respects (evaluating sure still names) (memberKey host k) := by
  cases k with
  | fixed name => exact Respects.pure name
  | computed e =>
    exact Respects.bind (ih e (by simp [Key.exprs])) fun _ =>
      respects_ofResult (Value.sound_asKey _) _

theorem respects_propertyKey {p : Property}
    (ih : ∀ x ∈ p.exprs, Respects (evaluating sure still names) (links host x)) :
    Respects (evaluating sure still names) (propertyKey host p) := by
  cases p with
  | named name => exact Respects.pure name
  | computed e => exact Respects.bind (ih e (by simp [Property.exprs])) fun _ => Respects.pure _

theorem respects_fields {ms : List Member}
    (ih : ∀ x ∈ ms.flatMap Member.exprs, Respects (evaluating sure still names) (links host x))
    (before : Fields Value) : Respects (evaluating sure still names) (fields host before ms) := by
  induction ms generalizing before with
  | nil => exact Respects.pure before
  | cons m rest ihr =>
    have h2 : ∀ before, Respects (evaluating sure still names) (fields host before rest) :=
      ihr fun x hx => ih x (List.mem_append_right _ hx)
    -- a key is evaluated before its value, and both before the fields that follow
    cases m with
    | property key value =>
      have hk : Respects (evaluating sure still names) (memberKey host key) :=
        respects_memberKey fun x hx => ih x (by simp [Member.exprs, hx])
      have hv : Respects (evaluating sure still names) (links host value) :=
        ih value (by simp [Member.exprs])
      exact Respects.bind hk fun _ => Respects.bind hv fun _ => h2 _
    | spread e =>
      have he : Respects (evaluating sure still names) (links host e) :=
        ih e (by simp [Member.exprs])
      exact Respects.bind he fun _ =>
        Respects.bind (respects_ofResult (Value.sound_spreadFields _) _) fun _ => h2 _

theorem respects_inOrder {es : List Expr}
    (ih : ∀ x ∈ es, Respects (evaluating sure still names) (links host x)) (last : Value) :
    Respects (evaluating sure still names) (inOrder host last es) := by
  induction es generalizing last with
  | nil => exact Respects.pure last
  | cons e rest ihr =>
    exact Respects.bind (ih e List.mem_cons_self) fun _ =>
      ihr (fun x hx => ih x (List.mem_cons_of_mem _ hx)) _

/-- The target of an assignment is evaluated within the law, and its variable is visible then. -/
structure GoodTarget (sure still : Prop) (names : List String) (host : Host) (e : Expr) : Prop where
  respects : Respects (evaluating sure still names) (targetPath host e)
  sees : still → ∀ {s name keys t}, runFrom s (targetPath host e) = (.ok (name, keys), t) →
    t.sees name = true

theorem GoodTarget.identifier (s : Span) {name : String} (hmem : name ∈ names) :
    GoodTarget sure still names host (.identifier s name) := by
  refine ⟨?_, ?_⟩
  · refine fun scope => RespectsAt.look_bind ?_
    split
    · exact Respects.pure _ scope
    · next hsees => exact respectsAt_missing hmem (fun _ => Bool.eq_false_iff.2 hsees) s
  · intro _ scope name' keys t h
    simp only [targetPath, runFrom_bind, runFrom_look] at h
    split at h
    · next hsees =>
      obtain ⟨⟨rfl, rfl⟩, rfl⟩ : (name = name' ∧ [] = keys) ∧ scope = t := by simpa using h
      exact hsees
    · exact nomatch h

theorem GoodTarget.member {s : Span} {owner : Expr} {p : Property}
    (ho : GoodTarget sure still names host owner)
    (hp : Respects (evaluating sure still names) (propertyKey host p)) :
    GoodTarget sure still names host (.member s owner p false) := by
  refine ⟨Respects.bind ho.respects fun _ => Respects.bind hp fun _ => Respects.pure _, ?_⟩
  intro hstill scope name keys t h
  obtain ⟨⟨name', keys'⟩, s1, h1, h⟩ := runFrom_bind_eq_ok h
  obtain ⟨key, s2, h2, h⟩ := runFrom_bind_eq_ok h
  obtain ⟨⟨rfl, -⟩, rfl⟩ : (name' = name ∧ keys' ++ [key] = keys) ∧ s2 = t := by simpa using h
  have hsees : s1.sees name' = true := ho.sees hstill h1
  have hkept : s2.pointers = s1.pointers := ((hp s1).done h2).2 hstill
  rw [Scope.sees, hkept]
  exact hsees

theorem GoodTarget.other {e : Expr}
    (h : targetPath host e = Evaluation.fail .invalidAssignmentTarget e.span) :
    GoodTarget sure still names host e := by
  refine ⟨?_, ?_⟩
  · rw [h]
    exact respects_fail_of_values rfl _
  · intro _ s name keys t ht
    rw [h] at ht
    exact nomatch ht


theorem respects_assignment {s : Span} {op : AssignOp} {target value : Expr}
    (hplain : still → (assignment s op target value).isDeclaration = false)
    (ht : GoodTarget sure still names host target)
    (hv : Respects (evaluating sure still names) (links host value)) :
    Respects (evaluating sure still names) (links host (assignment s op target value)) := by
  intro scope
  cases op with
  | assign =>
    -- any target but a name: its path is found first, then the value is evaluated
    have other : RespectsAt (evaluating sure still names) scope (do
        let place ← targetPath host target
        let v := orUndefined (← links host value)
        writePath place.1 place.2 v target.span
        return some v : Evaluation (Option Value)) := by
      refine RespectsAt.bind (ht.respects scope) fun place s1 h1 _ => ?_
      refine RespectsAt.bind (hv s1) fun _ s2 _ h2 => ?_
      refine RespectsAt.bind (respects_writePath (fun hstill => ?_) _ _ _) fun _ s3 _ _ =>
        Respects.pure _ s3
      rw [Scope.sees, h2.2 hstill]
      exact ht.sees hstill h1
    cases target with
    | identifier t name =>
      -- a name: the value comes first, and the name is declared if it is new
      refine RespectsAt.bind (hv scope) fun _ s1 _ _ => ?_
      refine RespectsAt.bind
        (RespectsAt.of_ok rfl ⟨Scope.leads_set s1 name _, fun hstill => ?_⟩) fun _ s2 _ _ =>
          Respects.pure _ s2
      exact absurd (hplain hstill) (by simp [isDeclaration])
    | _ => exact other
  | binary op hop =>
    -- compound: the path is found once, read, and written to behind the value
    refine RespectsAt.bind (ht.respects scope) fun place s1 h1 _ => ?_
    refine RespectsAt.look_bind ?_
    refine RespectsAt.bind (respects_readPath _ _ _ s1) fun old s2 _ h2 => ?_
    refine RespectsAt.bind (hv s2) fun right s3 _ h3 => ?_
    refine RespectsAt.bind (respects_ofResult (BinaryOp.sound_apply hop _ _) _ s3)
      fun v s4 _ h4 => ?_
    refine RespectsAt.bind (respects_writePath (fun hstill => ?_) _ _ _) fun _ s5 _ _ =>
      Respects.pure _ s5
    rw [Scope.sees, h4.2 hstill, h3.2 hstill, h2.2 hstill]
    exact ht.sees hstill h1
  | logical op =>
    refine RespectsAt.bind (ht.respects scope) fun place s1 h1 _ => ?_
    refine RespectsAt.look_bind ?_
    refine RespectsAt.bind (respects_readPath _ _ _ s1) fun old s2 _ h2 => ?_
    dsimp only
    split
    -- the old value decides: the right side is not evaluated
    · exact Respects.pure _ s2
    · refine RespectsAt.bind (hv s2) fun right s3 _ h3 => ?_
      refine RespectsAt.bind (respects_writePath (fun hstill => ?_) _ _ _) fun _ s4 _ _ =>
        Respects.pure _ s4
      rw [Scope.sees, h3.2 hstill, h2.2 hstill]
      exact ht.sees hstill h1

theorem respects_update {s : Span} {op : UpdateOp} {leading : Bool} {argument : Expr}
    (ht : GoodTarget sure still names host argument)
    (hv : Respects (evaluating sure still names) (links host argument)) :
    Respects (evaluating sure still names) (links host (update s op leading argument)) := by
  intro scope
  refine RespectsAt.bind (hv scope) fun v s1 _ _ => ?_
  split
  · refine RespectsAt.bind (ht.respects s1) fun ⟨name, keys⟩ s2 h2 _ => ?_
    refine RespectsAt.bind (respects_writePath (fun hstill => ?_) _ _ _) fun _ s3 _ _ =>
      Respects.pure _ s3
    exact ht.sees hstill h2
  · exact respects_fail_of_values rfl _ s1

/-- The law holds of an expression, and of a target, under what is assumed of its operators and of
its assignments. -/
theorem respects_links (host : Host) (e : Expr) (hsure : sure → Supported e)
    (hstill : still → DeclaresNothing e) (hnames : e.names ⊆ names) :
    Respects (evaluating sure still names) (links host e) ∧ GoodTarget sure still names host e := by
  -- the induction is on the expression, for both halves at once: the place that an assignment or an
  -- update writes to is found through the parts of its target
  induction e using Expr.induct with
  | step e ih =>
    have both : ∀ x ∈ e.parts,
        Respects (evaluating sure still names) (links host x) ∧
        GoodTarget sure still names host x :=
      fun x hx => ih x hx (fun h => (hsure h).part hx) (fun h => (hstill h).part hx)
        fun _ h => hnames (names_subset_of_part hx h)
    have ihl : ∀ x ∈ e.parts, Respects (evaluating sure still names) (links host x) :=
      fun x hx => (both x hx).1
    have iht : ∀ x ∈ e.parts, GoodTarget sure still names host x := fun x hx => (both x hx).2
    refine ⟨?_, ?_⟩
    · cases e with
      | literal s l => exact Respects.pure _
      | identifier s name =>
        exact Respects.bind (respects_readVariable (hnames name_mem_names) _) fun _ =>
          Respects.pure _
      | array s elements => exact Respects.bind (respects_items ihl) fun _ => Respects.pure _
      | object s members => exact Respects.bind (respects_fields ihl _) fun _ => Respects.pure _
      | sequence s es => exact Respects.bind (respects_inOrder ihl _) fun _ => Respects.pure _
      | binary s op left right =>
        -- an operator without a meaning fails before its operands are evaluated
        by_cases hop : op.isSupported = true
        · simp only [links, hop, Bool.not_true, Bool.false_eq_true, if_false]
          exact Respects.bind (ihl left (by simp [parts])) fun _ =>
            Respects.bind (ihl right (by simp [parts])) fun _ =>
              Respects.bind (respects_ofResult (BinaryOp.sound_apply hop _ _) _) fun _ =>
                Respects.pure _
        · simp only [links, hop, Bool.not_false, if_true]
          exact respects_fail (fun h => absurd (hsure h).operator hop) (by simp) _
      | logical s op left right =>
        refine Respects.bind (ihl left (by simp [parts])) fun _ => ?_
        dsimp only
        -- the left operand may decide alone
        split
        · exact Respects.pure _
        · exact Respects.bind (ihl right (by simp [parts])) fun _ => Respects.pure _
      | unary s op argument =>
        by_cases hop : op.isSupported = true
        · simp only [links, hop, Bool.not_true, Bool.false_eq_true, if_false]
          exact Respects.bind (ihl argument (by simp [parts])) fun _ =>
            Respects.bind (respects_ofResult (UnaryOp.sound_apply hop _) _) fun _ =>
              Respects.pure _
        · simp only [links, hop, Bool.not_false, if_true]
          exact respects_fail (fun h => absurd (hsure h).operator hop) (by simp) _
      | update s op leading argument =>
        exact respects_update (iht argument (by simp [parts])) (ihl argument (by simp [parts]))
      | assignment s op target value =>
        exact respects_assignment (fun h => (hstill h).self) (iht target (by simp [parts]))
          (ihl value (by simp [parts]))
      | conditional s test consequent alternate =>
        refine Respects.bind (ihl test (by simp [parts])) fun _ => ?_
        split
        · exact Respects.bind (ihl consequent (by simp [parts])) fun _ => Respects.pure _
        · exact Respects.bind (ihl alternate (by simp [parts])) fun _ => Respects.pure _
      | member s owner property optional =>
        refine Respects.bind (ihl owner (by simp [parts])) fun o => ?_
        have hp : Respects (evaluating sure still names) (propertyKey host property) :=
          respects_propertyKey fun x hx => ihl x (List.mem_cons_of_mem _ hx)
        -- the chain was cut short on the left, or is cut here, or goes on with the key
        cases o with
        | none => exact Respects.pure none
        | some v =>
          dsimp only
          split
          · exact Respects.pure none
          · exact Respects.bind hp fun _ => Respects.bind (respects_readProperty _ _ _) fun _ =>
              Respects.pure _
      | call s callee arguments optional =>
        refine Respects.bind (ihl callee (by simp [parts])) fun o => ?_
        have ha : Respects (evaluating sure still names) (items host arguments) :=
          respects_items fun x hx => ihl x (List.mem_cons_of_mem _ hx)
        -- the same for a call, with its arguments in the place of the key
        cases o with
        | none => exact Respects.pure none
        | some f =>
          dsimp only
          split
          · exact Respects.pure none
          · exact Respects.bind ha fun _ =>
              Respects.bind (respects_callFunction _ _ _ _ _) fun _ => Respects.pure _
      | chain s inner => exact Respects.bind (ihl inner (by simp [parts])) fun _ => Respects.pure _
    -- only names and members without `?.` are places to write to
    · cases e with
      | identifier s name => exact GoodTarget.identifier s (hnames name_mem_names)
      | member s owner property optional =>
        cases optional with
        | true => exact GoodTarget.other rfl
        | false =>
          exact GoodTarget.member (iht owner (by simp [parts]))
            (respects_propertyKey fun x hx => ihl x (List.mem_cons_of_mem _ hx))
      | _ => exact GoodTarget.other rfl

/-- An evaluation keeps the names that are visible if the expression declares none, and fails only
for reasons that depend on values if its operators can be evaluated. -/
theorem respects_evaluate (host : Host) (e : Expr) :
    Respects (evaluating (Supported e) (DeclaresNothing e) e.names) (e.evaluate host) := by
  have h : e.evaluate host = e.links host >>= fun v => pure (orUndefined v) := by
    simp [evaluate]
  rw [h]
  exact Respects.bind (respects_links host e (fun h => h) (fun h => h) (List.Subset.refl _)).1
    fun _ => Respects.pure _

end Expr

end PromptMarkup

/-
The names that a template needs.

* `Expr.finds_mention` — going through an expression finds all its names, as declared or as
  parameters;
* `Node.declares` — the names that are visible behind a node and were not in front of it;
* `Node.Known` — all names that a node needs are visible where they are needed;
* `Node.tells_survey` — a survey that does not stop has seen that, if its parameters are visible.

Design notes: like `Node.Placed`, `Node.Known` follows the tree and mentions neither a survey nor a
walk.  The names in front of a node are a list; a block hands it on with its loop variables, and
what is declared inside of it is not seen behind it.
-/
import PromptMarkup.Proofs.Footprint
import PromptMarkup.Proofs.Placement

namespace PromptMarkup

open PromptMarkup.Computation

/-! ### Expressions -/

/-- From `a` to `b` some names were found: each is declared, and what was not declared before is a
parameter. -/
structure Names.Reads (a b : Names) (names : List String) : Prop where
  parameters : a.parameters.toList ⊆ b.parameters.toList
  declared : a.declared.toList ⊆ b.declared.toList
  found : names ⊆ b.declared.toList
  known : ∀ name ∈ b.declared, name ∈ a.declared ∨ name ∈ b.parameters

namespace Names.Reads

variable {a b c : Names} {names more : List String}

theorem refl (a : Names) : a.Reads a [] :=
  ⟨List.Subset.refl _, List.Subset.refl _, List.nil_subset _, fun _ h => .inl h⟩

theorem trans (h : a.Reads b names) (h' : b.Reads c more) : a.Reads c (names ++ more) := by
  refine ⟨fun _ hx => h'.parameters (h.parameters hx), fun _ hx => h'.declared (h.declared hx),
    fun name hname => ?_, fun name hname => ?_⟩
  · rcases List.mem_append.1 hname with hname | hname
    · exact h'.declared (h.found hname)
    · exact h'.found hname
  · rcases h'.known name hname with hb | hc
    · exact (h.known name hb).imp_right fun hb => h'.parameters hb
    · exact .inr hc

theorem weaken (h : a.Reads b names) (hsub : more ⊆ names) : a.Reads b more :=
  { h with found := fun _ hx => h.found (hsub hx) }

theorem read (a : Names) (name : String) : a.Reads (a.read name) [name] := by
  unfold Names.read
  split
  · next h =>
    exact ⟨List.Subset.refl _, List.Subset.refl _, List.cons_subset.2 ⟨h, List.nil_subset _⟩,
      fun _ h => .inl h⟩
  · have hinsert : ∀ {s : NameSet} {x : String}, x ∈ s → x ∈ s.insert name :=
      fun h => NameSet.mem_insert.2 (.inr h)
    have hname : ∀ {s : NameSet}, name ∈ s.insert name := NameSet.mem_insert.2 (.inl rfl)
    refine ⟨fun _ => hinsert, fun _ => hinsert, List.cons_subset.2 ⟨hname, List.nil_subset _⟩,
      fun x hx => ?_⟩
    rcases NameSet.mem_insert.1 hx with rfl | hx
    · exact .inr hname
    · exact .inl hx

/-- What was declared is visible, and so is what was found, once the parameters are. -/
theorem within (h : a.Reads b names) {V : List String} (ha : a.declared.toList ⊆ V)
    (hb : b.parameters.toList ⊆ V) : b.declared.toList ⊆ V := by
  intro name hname
  rcases h.known name hname with hname | hname
  · exact ha hname
  · exact hb hname

end Names.Reads

namespace Expr

/-- A computation on names finds the given ones. -/
def Finds {α : Type} (x : Naming α) (names : List String) : Prop :=
  ∀ a r b, runFrom a x = (.ok r, b) → a.Reads b names

theorem finds_pure {α : Type} (r : α) : Finds (pure r) [] := by
  intro a r b h
  obtain rfl : a = b := (Prod.mk.inj h).2
  exact Names.Reads.refl a

theorem finds_fail {α : Type} (fault : Fault) (span : Span) (names : List String) :
    Finds (Naming.fail fault span : Naming α) names :=
  fun _ _ _ h => nomatch h

theorem finds_read (name : String) : Finds (modify fun names => names.read name) [name] := by
  intro a r b h
  obtain rfl : a.read name = b := (Prod.mk.inj h).2
  exact Names.Reads.read a name

theorem Finds.bind {α β : Type} {x : Naming α} {f : α → Naming β} {names more : List String}
    (hx : Finds x names) (hf : ∀ r, Finds (f r) more) : Finds (x >>= f) (names ++ more) := by
  intro a r c h
  obtain ⟨r', b, h1, h2⟩ := runFrom_bind_eq_ok h
  exact (hx a r' b h1).trans (hf r' b r c h2)

theorem Finds.weaken {α : Type} {x : Naming α} {names more : List String} (h : Finds x names)
    (hsub : more ⊆ names) : Finds x more :=
  fun a r b hrun => (h a r b hrun).weaken hsub

theorem finds_mentionAll {es : List Expr} (ih : ∀ x ∈ es, Finds (mention x) x.names) :
    Finds (mentionAll es) (es.flatMap names) := by
  induction es with
  | nil => exact finds_pure ()
  | cons e rest ihr =>
    exact (ih e List.mem_cons_self).bind fun _ => ihr fun x hx => ih x (List.mem_cons_of_mem _ hx)

theorem finds_mentionElements {es : List Element}
    (ih : ∀ x ∈ es.map Element.expr, Finds (mention x) x.names) :
    Finds (mentionElements es) ((es.map Element.expr).flatMap names) := by
  induction es with
  | nil => exact finds_pure ()
  | cons e rest ihr =>
    have h : Finds (mention e.expr >>= fun _ => mentionElements rest)
        (e.expr.names ++ (rest.map Element.expr).flatMap names) :=
      (ih _ List.mem_cons_self).bind fun _ => ihr fun x hx => ih x (List.mem_cons_of_mem _ hx)
    cases e with
    | item x => exact h
    | spread x => exact h

theorem finds_mentionKey {k : Key} (ih : ∀ x ∈ k.exprs, Finds (mention x) x.names) :
    Finds (mentionKey k) (k.exprs.flatMap names) := by
  cases k with
  | fixed name => exact finds_pure ()
  | computed e =>
    refine Finds.weaken (ih e (List.mem_singleton.2 rfl)) ?_
    simp [Key.exprs]

theorem finds_mentionProperty {p : Property} (ih : ∀ x ∈ p.exprs, Finds (mention x) x.names) :
    Finds (mentionProperty p) (p.exprs.flatMap names) := by
  cases p with
  | named name => exact finds_pure ()
  | computed e =>
    refine Finds.weaken (ih e (List.mem_singleton.2 rfl)) ?_
    simp [Property.exprs]

theorem finds_mentionMembers {ms : List Member}
    (ih : ∀ x ∈ ms.flatMap Member.exprs, Finds (mention x) x.names) :
    Finds (mentionMembers ms) ((ms.flatMap Member.exprs).flatMap names) := by
  induction ms with
  | nil => exact finds_pure ()
  | cons m rest ihr =>
    -- a key is gone through before its value
    have hrest := ihr fun x hx => ih x (List.mem_append_right _ hx)
    have hm : ∀ x ∈ m.exprs, Finds (mention x) x.names :=
      fun x hx => ih x (List.mem_append_left _ hx)
    cases m with
    | property key value =>
      have hkey : Finds (mentionKey key) (key.exprs.flatMap names) :=
        finds_mentionKey fun x hx => hm x (List.mem_append_left _ hx)
      have hvalue : Finds (mention value) value.names :=
        hm value (List.mem_append_right _ (List.mem_singleton.2 rfl))
      refine Finds.weaken (hkey.bind fun _ => hvalue.bind fun _ => hrest) ?_
      simp [Member.exprs]
    | spread e =>
      refine Finds.weaken ((hm e (List.mem_singleton.2 rfl)).bind fun _ => hrest) ?_
      simp [Member.exprs]

/-- Going through an expression that declares nothing, or through a target, finds all names in it.
-/
theorem finds_mention (e : Expr) (h : e.DeclaresNothing) :
    Finds (mention e) e.names ∧ Finds (mentionTarget e) e.names := by
  induction e using Expr.induct with
  | step e ih =>
    have ihm : ∀ x ∈ e.parts, Finds (mention x) x.names := fun x hx => (ih x hx (h.part hx)).1
    have iht : ∀ x ∈ e.parts, Finds (mentionTarget x) x.names := fun x hx => (ih x hx (h.part hx)).2
    rw [names_eq]
    -- as an expression, and as the target of an assignment or an update
    refine ⟨?_, ?_⟩
    · cases e with
      | literal s l => exact finds_pure ()
      | identifier s name => exact finds_read name
      | array s elements => exact finds_mentionElements ihm
      | object s members => exact finds_mentionMembers ihm
      | sequence s es => exact finds_mentionAll ihm
      | binary s op left right =>
        unfold mention
        split
        · exact finds_fail _ _ _
        · refine Finds.weaken ((ihm left (by simp [parts])).bind fun _ =>
            ihm right (by simp [parts])) ?_
          simp [parts, name?]
      | logical s op left right =>
        refine Finds.weaken ((ihm left (by simp [parts])).bind fun _ =>
          ihm right (by simp [parts])) ?_
        simp [parts, name?]
      | unary s op argument =>
        unfold mention
        split
        · exact finds_fail _ _ _
        · refine Finds.weaken (ihm argument (by simp [parts])) ?_
          simp [parts, name?]
      | update s op leading argument =>
        refine Finds.weaken (iht argument (by simp [parts])) ?_
        simp [parts, name?]
      | assignment s op target value =>
        -- an assignment to a name would declare it, and nothing is declared here
        have hplain : ¬ (op = .assign ∧ ∃ t name, target = identifier t name) := by
          rintro ⟨rfl, t, name, rfl⟩
          cases h.self
        rw [mention_assignment hplain]
        refine Finds.weaken ((ihm value (by simp [parts])).bind fun _ =>
          iht target (by simp [parts])) ?_
        simp [parts, name?]
      | conditional s test consequent alternate =>
        refine Finds.weaken ((ihm test (by simp [parts])).bind fun _ =>
          (ihm consequent (by simp [parts])).bind fun _ => ihm alternate (by simp [parts])) ?_
        simp [parts, name?]
      | member s owner property optional =>
        have hp : Finds (mentionProperty property) (property.exprs.flatMap names) :=
          finds_mentionProperty fun x hx => ihm x (List.mem_cons_of_mem _ hx)
        exact (ihm owner List.mem_cons_self).bind fun _ => hp
      | call s callee arguments optional =>
        have ha : Finds (mentionElements arguments) ((arguments.map Element.expr).flatMap names) :=
          finds_mentionElements fun x hx => ihm x (List.mem_cons_of_mem _ hx)
        exact (ihm callee List.mem_cons_self).bind fun _ => ha
      | chain s inner =>
        refine Finds.weaken (ihm inner (by simp [parts])) ?_
        simp [parts, name?]
    · cases e with
      | identifier s name => exact finds_read name
      | member s owner property optional =>
        -- links with `?.` and expressions of other kinds are refused as targets
        cases optional with
        | true => exact finds_fail _ _ _
        | false =>
          have hp : Finds (mentionProperty property) (property.exprs.flatMap names) :=
            finds_mentionProperty fun x hx => ihm x (List.mem_cons_of_mem _ hx)
          exact (iht owner List.mem_cons_self).bind fun _ => hp
      | _ => exact finds_fail _ _ _

end Expr

/-! ### Nodes -/

/-- The name that a plain assignment declares. -/
def Expr.declared? : Expr → Option String
  | .assignment _ .assign (.identifier _ name) _ => some name
  | _ => none

/-- The names that must be visible in front of an expression whose parts declare nothing. -/
def Expr.needed : Expr → List String
  | .assignment _ .assign (.identifier _ _) value => value.names
  | e => e.names

/-- An expression whose parts declare nothing is a plain assignment, or declares nothing itself. -/
theorem Expr.plain_or_declaresNothing {e : Expr} (h : ∀ x ∈ e.parts, x.DeclaresNothing) :
    (∃ s t name value, e = .assignment s .assign (.identifier t name) value) ∨
      (e.DeclaresNothing ∧ e.needed = e.names ∧ e.declared? = none) := by
  by_cases hplain : ∃ s t name value, e = .assignment s .assign (.identifier t name) value
  · exact .inl hplain
  -- the three functions on expressions have a case for this form only
  · have hself : e.isDeclaration = false := by
      unfold Expr.isDeclaration
      split
      · next s t name value => exact absurd ⟨s, t, name, value, rfl⟩ hplain
      · rfl
    refine .inr ⟨fun x hx => ?_, ?_, ?_⟩
    · rw [Expr.subterms_eq] at hx
      rcases List.mem_cons.1 hx with rfl | hx
      · exact hself
      · obtain ⟨y, hy, hx⟩ := List.mem_flatMap.1 hx
        exact h y hy x hx
    · unfold Expr.needed
      split
      · next s t name value => exact absurd ⟨s, t, name, value, rfl⟩ hplain
      · rfl
    · unfold Expr.declared?
      split
      · next s t name value => exact absurd ⟨s, t, name, value, rfl⟩ hplain
      · rfl

/-- The names in attributes. -/
def attributeNames (as : List Attribute) : List String :=
  (as.flatMap Attribute.expressions).flatMap Expr.names

/-- The name that a step gives to its response, if it is written out. -/
def responseName? (as : List Attribute) : Option String :=
  (Attribute.find? as "as").bind Attribute.staticText?

theorem ForHeader.key_of_usedKey {header : ForHeader} {e : Expr} (h : e ∈ header.usedKey) :
    e ∈ header.key := by
  obtain ⟨name, -, hkey⟩ := Option.bind_eq_some_iff.1 h
  exact hkey

/-- The variables of a loop. -/
def ForHeader.variables (header : ForHeader) : List String :=
  header.item :: header.index.toList

namespace Node

mutual

/-- The names that are declared in a node and visible behind it. -/
def declares : Node → List String
  | mustache _ e => e.declared?.toList
  | element _ name as children =>
    match TagKind.ofName name with
    | .reference => []
    | .step => declaresAll children ++ (responseName? as).toList
    | _ => declaresAll children
  | _ => []

/-- The names that are declared in several nodes and visible behind them. -/
def declaresAll : List Node → List String
  | [] => []
  | n :: rest => declares n ++ declaresAll rest

end

mutual

/-- Every name that a node needs is visible where it is needed, if the names `V` are in front of it.
-/
def Known (V : List String) : Node → Prop
  | mustache _ e => e.needed ⊆ V
  | fragment _ children => KnownAll V children
  | ifBlock _ condition _ children otherwise =>
    condition.names ⊆ V ∧ KnownAll V children ∧ KnownElse V otherwise
  | forBlock _ header children otherwise =>
    header.iterable.names ⊆ V ∧ (∀ e ∈ header.usedKey, e.names ⊆ V ++ [header.item]) ∧
      KnownAll (V ++ header.variables) children ∧ KnownElse V otherwise
  | element _ name as children =>
    match TagKind.ofName name with
    | .reference => True
    | .step => attributeNames (Attribute.others as "as") ⊆ V ∧ KnownAll V children
    | .unknown => KnownAll V children
    | _ => attributeNames as ⊆ V ∧ KnownAll V children
  | _ => True

/-- Every name that several nodes need is visible where it is needed. -/
def KnownAll (V : List String) : List Node → Prop
  | [] => True
  | n :: rest => Known V n ∧ KnownAll (V ++ declares n) rest

/-- Every name that an `else` part needs is visible where it is needed. -/
def KnownElse (V : List String) : Option Node → Prop
  | none => True
  | some n => Known V n

end

/-- A plain assignment to a name is the whole expression of a mustache. -/
def DeclaresInMustaches : Node → Prop
  | mustache _ e => ∀ x ∈ e.parts, x.DeclaresNothing
  | n => ∀ e ∈ n.expressions, e.DeclaresNothing

instance : DecidablePred DeclaresInMustaches
  | mustache _ e => inferInstanceAs (Decidable (∀ x ∈ e.parts, x.DeclaresNothing))
  | fragment i ns =>
    inferInstanceAs (Decidable (∀ e ∈ (fragment i ns).expressions, e.DeclaresNothing))
  | config i v raw =>
    inferInstanceAs (Decidable (∀ e ∈ (config i v raw).expressions, e.DeclaresNothing))
  | text i data => inferInstanceAs (Decidable (∀ e ∈ (text i data).expressions, e.DeclaresNothing))
  | comment i data =>
    inferInstanceAs (Decidable (∀ e ∈ (comment i data).expressions, e.DeclaresNothing))
  | ifBlock i condition elseIf ns o => inferInstanceAs
    (Decidable (∀ e ∈ (ifBlock i condition elseIf ns o).expressions, e.DeclaresNothing))
  | forBlock i header ns o =>
    inferInstanceAs (Decidable (∀ e ∈ (forBlock i header ns o).expressions, e.DeclaresNothing))
  | element i name as ns =>
    inferInstanceAs (Decidable (∀ e ∈ (element i name as ns).expressions, e.DeclaresNothing))

/-- Names are declared in mustaches only, and what is declared in an `else` part is not seen behind
it. -/
def Orderly (n : Node) : Prop :=
  ∀ m ∈ n.nodes, m.DeclaresInMustaches ∧ ∀ o ∈ m.elsePart?, o.declares = []

theorem Orderly.child {n m : Node} (h : n.Orderly) (hm : m ∈ n.childNodes) : m.Orderly :=
  fun x hx => h x (mem_nodes_of_child hm hx)

end Node

/-! ### Surveys -/

/-- A survey that does not stop has seen what `Q` says of the names in front of it, and behind it
some new names are declared; this holds for all lists of names among which the declared names and
the parameters are. -/
def Tells {α : Type} (x : Surveying α) (Q : List String → Prop) (new : List String) : Prop :=
  ∀ s a t, runFrom s x = (.ok a, t) →
    s.names.parameters.toList ⊆ t.names.parameters.toList ∧
      ∀ V, s.names.declared.toList ⊆ V → t.names.parameters.toList ⊆ V →
        Q V ∧ t.names.declared.toList ⊆ V ++ new

section Rules

variable {α β : Type} {P Q : List String → Prop} {new more : List String}

theorem Tells.imp {x : Surveying α} (h : Tells x P new) (hPQ : ∀ V, P V → Q V) : Tells x Q new := by
  intro s a t hrun
  obtain ⟨hparameters, hall⟩ := h s a t hrun
  exact ⟨hparameters, fun V hs ht => (hall V hs ht).imp_left (hPQ V)⟩

theorem tells_pure (a : α) : Tells (pure a) (fun _ => True) [] := by
  intro s b t hrun
  obtain rfl : s = t := (Prod.mk.inj hrun).2
  exact ⟨List.Subset.refl _, fun V hs _ => ⟨trivial, (List.append_nil V).symm ▸ hs⟩⟩

theorem tells_throw (e : Problem) (Q : List String → Prop) (new : List String) :
    Tells (throw e : Surveying α) Q new :=
  fun _ _ _ hrun => nomatch hrun

theorem Tells.bind {x : Surveying α} {f : α → Surveying β} (hx : Tells x P new)
    (hf : ∀ a, Tells (f a) Q more) :
    Tells (x >>= f) (fun V => P V ∧ Q (V ++ new)) (new ++ more) := by
  intro s b u hrun
  obtain ⟨a, t, h1, h2⟩ := runFrom_bind_eq_ok hrun
  obtain ⟨hst, hall⟩ := hx s a t h1
  obtain ⟨htu, hall'⟩ := hf a t b u h2
  refine ⟨fun _ h => htu (hst h), fun V hs hu => ?_⟩
  obtain ⟨hP, ht⟩ := hall V hs fun _ h => hu (htu h)
  obtain ⟨hQ, hd⟩ := hall' (V ++ new) ht fun _ h => List.mem_append_left _ (hu h)
  exact ⟨⟨hP, hQ⟩, List.append_assoc V new more ▸ hd⟩

/-- A part that declares nothing and tells nothing. -/
theorem Tells.then {x : Surveying α} {f : α → Surveying β} (hx : Tells x P [])
    (hf : ∀ a, Tells (f a) Q more) : Tells (x >>= f) Q more := by
  refine Tells.imp (hx.bind hf) fun V h => ?_
  rw [List.append_nil] at h
  exact h.2

/-- A part that declares nothing. -/
theorem Tells.both {x : Surveying α} {f : α → Surveying β} (hx : Tells x P [])
    (hf : ∀ a, Tells (f a) Q more) : Tells (x >>= f) (fun V => P V ∧ Q V) more := by
  refine Tells.imp (hx.bind hf) fun V h => ?_
  rw [List.append_nil] at h
  exact h

/-- A last part that declares nothing and tells nothing. -/
theorem Tells.first {x : Surveying α} {f : α → Surveying β} (hx : Tells x P new)
    (hf : ∀ a, Tells (f a) (fun _ => True) []) : Tells (x >>= f) P new := by
  have h := hx.bind hf
  rw [List.append_nil] at h
  exact h.imp fun _ h => h.1

theorem tells_look {part : Survey → α} {f : α → Surveying β} (h : ∀ a, Tells (f a) Q new) :
    Tells (look part >>= f) Q new := by
  intro s b t hrun
  rw [runFrom_bind_ok (runFrom_look s part)] at hrun
  exact h _ s b t hrun

/-- A change that adds at most parameters. -/
theorem tells_modify {f : Survey → Survey}
    (hdeclared : ∀ s, (f s).names.declared = s.names.declared)
    (hparameters : ∀ s, s.names.parameters.toList ⊆ (f s).names.parameters.toList) :
    Tells (modify f : Surveying PUnit) (fun _ => True) [] := by
  intro s a t hrun
  obtain rfl : f s = t := (Prod.mk.inj hrun).2
  refine ⟨hparameters s, fun V hs _ => ⟨trivial, ?_⟩⟩
  rw [hdeclared s, List.append_nil]
  exact hs

theorem tells_same {f : Survey → Survey} (h : ∀ s, (f s).names = s.names) :
    Tells (modify f : Surveying PUnit) (fun _ => True) [] :=
  tells_modify (fun s => congrArg Names.declared (h s)) fun s => by
    rw [h s]
    exact List.Subset.refl _

end Rules

namespace Surveying

variable {Q : List String → Prop} {new : List String}

theorem tells_fail {α : Type} (fault : Fault) (info : NodeInfo) (Q : List String → Prop)
    (new : List String) : Tells (fail fault info : Surveying α) Q new :=
  tells_throw _ _ _

theorem tells_declare (name : String) : Tells (declare name) (fun _ => True) [name] := by
  intro s a t hrun
  obtain rfl : { s with names := s.names.declare name } = t := (Prod.mk.inj hrun).2
  refine ⟨List.Subset.refl _, fun V hs _ => ⟨trivial, fun x hx => ?_⟩⟩
  rcases NameSet.mem_insert.1 hx with rfl | hx
  · exact List.mem_append_right _ List.mem_cons_self
  · exact List.mem_append_left _ (hs hx)

/-- What a computation on names tells, a survey tells that runs it. -/
theorem tells_names {x : Naming Unit}
    (h : ∀ a b, runFrom a x = (.ok (), b) → a.parameters.toList ⊆ b.parameters.toList ∧
      ∀ V, a.declared.toList ⊆ V → b.parameters.toList ⊆ V → Q V ∧ b.declared.toList ⊆ V ++ new) :
    Tells (do
      let (result, names) ← look fun s => x.runOn s.names
      modify fun s => { s with names := names }
      match result with
      | .ok () => pure ()
      | .error p => throw p) Q new := by
  intro s a t hrun
  rw [runFrom_bind_ok (runFrom_look s _)] at hrun
  rcases hnames : x.runOn s.names with ⟨e | ⟨⟩, found⟩
  · simp only [hnames] at hrun
    rw [runFrom_bind_ok (runFrom_modify s _)] at hrun
    exact nomatch hrun
  · simp only [hnames] at hrun
    rw [runFrom_bind_ok (runFrom_modify s _)] at hrun
    obtain rfl : { s with names := found } = t := (Prod.mk.inj hrun).2
    exact h s.names found hnames

theorem tells_mention {es : List Expr} (h : ∀ e ∈ es, e.DeclaresNothing) :
    Tells (mention es) (es.flatMap Expr.names ⊆ ·) [] := by
  have hfinds : Expr.Finds (Expr.mentionAll es) (es.flatMap Expr.names) :=
    Expr.finds_mentionAll fun x hx => (Expr.finds_mention x (h x hx)).1
  refine tells_names fun a b hrun => ?_
  have hreads : a.Reads b (es.flatMap Expr.names) := hfinds a () b hrun
  refine ⟨hreads.parameters, fun V ha hb => ?_⟩
  have hV : b.declared.toList ⊆ V := hreads.within ha hb
  rw [List.append_nil]
  exact ⟨fun _ h => hV (hreads.found h), hV⟩

theorem tells_mention_one {e : Expr} (h : e.DeclaresNothing) :
    Tells (mention [e]) (e.names ⊆ ·) [] := by
  refine (tells_mention fun x hx => ?_).imp fun V hV => ?_
  · obtain rfl := List.mem_singleton.1 hx
    exact h
  · simpa using hV

/-- A plain assignment needs the names of its value, and declares its own behind it. -/
theorem tells_mustache {e : Expr} (h : ∀ x ∈ e.parts, x.DeclaresNothing) :
    Tells (mention [e]) (e.needed ⊆ ·) e.declared?.toList := by
  rcases Expr.plain_or_declaresNothing h with ⟨s, t, name, value, rfl⟩ |
    ⟨hnothing, hneeded, hdeclared⟩
  -- the value is read before the name is declared, so that it needs its own names
  · have hfinds : Expr.Finds (Expr.mention value) value.names :=
      (Expr.finds_mention value (h value (by simp [Expr.parts]))).1
    refine tells_names fun a c hrun => ?_
    obtain ⟨⟨⟩, b', hboth, hpure⟩ := runFrom_bind_eq_ok hrun
    obtain rfl : b' = c := (Prod.mk.inj hpure).2
    obtain ⟨⟨⟩, b, hvalue, hdeclare⟩ := runFrom_bind_eq_ok hboth
    obtain rfl : b.declare name = b' := (Prod.mk.inj hdeclare).2
    have hreads : a.Reads b value.names := hfinds a () b hvalue
    refine ⟨hreads.parameters, fun V ha hb => ?_⟩
    -- both directions of the step: what is declared later was visible or is new
    have hV : b.declared.toList ⊆ V := hreads.within ha hb
    refine ⟨fun _ h => hV (hreads.found h), fun x hx => ?_⟩
    rcases NameSet.mem_insert.1 hx with rfl | hx
    · exact List.mem_append_right _ List.mem_cons_self
    · exact List.mem_append_left _ (hV hx)
  · rw [hneeded, hdeclared]
    exact tells_mention_one hnothing

theorem tells_attributes {as : List Attribute}
    (h : ∀ e ∈ as.flatMap Attribute.expressions, e.DeclaresNothing) :
    Tells (attributes as) (attributeNames as ⊆ ·) [] :=
  tells_mention h

/-- What is declared in an inner scope is not seen outside. -/
theorem tells_inCopy {act : Surveying Unit} (h : Tells act Q new) : Tells (inCopy act) Q [] := by
  intro s a u hrun
  unfold inCopy at hrun
  rw [runFrom_bind_ok (runFrom_look s _)] at hrun
  obtain ⟨⟨⟩, t, hact, hback⟩ := runFrom_bind_eq_ok hrun
  obtain rfl : { t with names.declared := s.names.declared } = u := (Prod.mk.inj hback).2
  obtain ⟨hparameters, hall⟩ := h s () t hact
  refine ⟨hparameters, fun V hs ht => ⟨(hall V hs ht).1, ?_⟩⟩
  rw [List.append_nil]
  exact hs

/-! ### Blocks -/

theorem tells_checkFree (info : NodeInfo) (name : String) :
    Tells (checkFree info name) (fun _ => True) [] := by
  refine tells_look fun _ => ?_
  split
  · exact tells_fail _ _ _ _
  · exact tells_pure ()

theorem tells_index {header : ForHeader} (h : ∀ e ∈ header.usedKey, e.DeclaresNothing) :
    Tells (index header) (fun V => ∀ e ∈ header.usedKey, e.names ⊆ V) header.index.toList := by
  unfold index
  unfold ForHeader.usedKey at h ⊢
  revert h
  cases header.index with
  | none => exact fun _ => (tells_pure ()).imp fun _ _ e he => nomatch he
  | some name =>
    intro h
    have hkey : Tells (mention header.key.toList) (header.key.toList.flatMap Expr.names ⊆ ·) [] :=
      tells_mention fun e he => h e (Option.mem_toList.1 he)
    refine (hkey.both fun _ => tells_declare name).imp fun V hV e he x hx => ?_
    exact hV.1 (List.mem_flatMap.2 ⟨e, Option.mem_toList.2 he, hx⟩)

theorem tells_forBlock {info : NodeInfo} {header : ForHeader} {body otherwise : Surveying Unit}
    {B O : List String → Prop} {inner : List String} (hiterable : header.iterable.DeclaresNothing)
    (hkey : ∀ e ∈ header.usedKey, e.DeclaresNothing) (hbody : Tells body B inner)
    (hotherwise : Tells otherwise O []) :
    Tells (forBlock info header body otherwise) (fun V => header.iterable.names ⊆ V ∧
      (∀ e ∈ header.usedKey, e.names ⊆ V ++ [header.item]) ∧ B
      (V ++ header.variables) ∧ O V) [] := by
  -- the names of the items are visible in the copy only, the key sees the item alone
  have hcopy : Tells (inCopy do
      declare header.item
      index header
      body) (fun V => (∀ e ∈ header.usedKey, e.names ⊆ V ++ [header.item]) ∧
        B (V ++ header.variables)) [] := by
    refine Tells.imp (tells_inCopy ((tells_declare header.item).bind fun _ =>
      (tells_index hkey).bind fun _ => hbody)) fun V h => ⟨h.2.1, ?_⟩
    rw [ForHeader.variables, ← List.singleton_append, ← List.append_assoc]
    exact h.2.2
  have hrest : Tells (do
      mention [header.iterable]
      inCopy do
        declare header.item
        index header
        body
      otherwise) (fun V => header.iterable.names ⊆ V ∧
        (∀ e ∈ header.usedKey, e.names ⊆ V ++ [header.item]) ∧ B
        (V ++ header.variables) ∧ O V) [] := by
    refine Tells.imp ((tells_mention_one hiterable).both fun _ => hcopy.both fun _ => hotherwise) ?_
    exact fun V h => ⟨h.1, h.2.1.1, h.2.1.2, h.2.2⟩
  -- names that are taken stop the survey, and then nothing is told
  refine (tells_checkFree info header.item).then fun _ => ?_
  cases header.index with
  | none => exact hrest
  | some name => exact (tells_checkFree info name).then fun _ => hrest

/-! ### Elements -/

variable {info : NodeInfo} {as : List Attribute} {body : Surveying Unit}

theorem tells_messageRole (role : Option Role) :
    Tells (messageRole info role as) (fun _ => True) [] := by
  unfold messageRole
  repeat' split
  all_goals first | exact tells_pure _ | exact tells_fail _ _ _ _

theorem tells_message {role : Option Role}
    (has : ∀ e ∈ as.flatMap Attribute.expressions, e.DeclaresNothing) (hbody : Tells body Q new) :
    Tells (message info role as body) (fun V => attributeNames as ⊆ V ∧ Q V) new := by
  refine tells_look fun inMessage => ?_
  split
  · exact tells_fail _ _ _ _
  · refine (tells_attributes has).both fun _ => (tells_messageRole role).then fun role => ?_
    split
    · exact tells_fail _ _ _ _
    · refine Tells.then (tells_same ?_) fun _ => hbody.first fun _ => tells_same ?_
      · exact fun _ => rfl
      · exact fun _ => rfl

theorem tells_contentTag {kind : ContentKind} {plain : Option String}
    (has : ∀ e ∈ as.flatMap Attribute.expressions, e.DeclaresNothing) (hbody : Tells body Q new) :
    Tells (contentTag info kind as plain body) (fun V => attributeNames as ⊆ V ∧ Q V) new := by
  refine tells_look fun inContent => ?_
  split
  · exact tells_fail _ _ _ _
  · refine (tells_attributes has).both fun _ => ?_
    refine Tells.then (tells_same ?_) fun _ => hbody.first fun _ =>
      Tells.then (tells_same ?_) fun _ => ?_
    · exact fun _ => rfl
    · exact fun _ => rfl
    · split
      · exact tells_fail _ _ _ _
      · exact tells_pure ()

theorem tells_checkPlacement : Tells (checkPlacement info) (fun _ => True) [] := by
  refine tells_look fun role => tells_look fun inMessage => ?_
  split
  · exact tells_pure ()
  · exact tells_same fun _ => rfl

theorem tells_toolCall {plain : Option String}
    (has : ∀ e ∈ as.flatMap Attribute.expressions, e.DeclaresNothing) (hbody : Tells body Q new) :
    Tells (toolCall info as plain body) (fun V => attributeNames as ⊆ V ∧ Q V) new := by
  refine tells_look fun inContent => ?_
  split
  · exact tells_fail _ _ _ _
  · refine (tells_attributes has).both fun _ => ?_
    split
    · exact tells_fail _ _ _ _
    · split
      · exact tells_fail _ _ _ _
      -- a tool call out of place is reported, and the survey goes on
      · have hplaced : Tells (if plain.all argumentsReadable then checkPlacement info
            else do
              report .invalidToolCallArguments info
              checkPlacement info) (fun _ => True) [] := by
          split
          · exact tells_checkPlacement
          · refine Tells.then (tells_same ?_) fun _ => tells_checkPlacement
            exact fun _ => rfl
        exact hbody.first fun _ => hplaced

theorem tells_stepName {β : Type} {f : Option String → Surveying β} {Q : List String → Prop}
    (h : Tells (f (responseName? as)) Q new) : Tells (stepName as >>= f) Q new := by
  intro s b t hrun
  unfold stepName at hrun
  unfold responseName? at h
  cases hfind : Attribute.find? as "as" with
  | none =>
    simp only [hfind, pure_bind] at hrun
    rw [hfind] at h
    exact h s b t hrun
  | some a =>
    rw [hfind, Option.bind_some] at h
    -- the name of a response must be known without evaluating anything
    cases hstatic : a.staticText? with
    | none =>
      simp only [hfind, hstatic] at hrun
      exact nomatch hrun
    | some name =>
      simp only [hfind, hstatic, pure_bind] at hrun
      rw [hstatic] at h
      exact h s b t hrun

theorem tells_step
    (has : ∀ e ∈ (Attribute.others as "as").flatMap Attribute.expressions, e.DeclaresNothing)
    (hbody : Tells body Q new) :
    Tells (step info as body) (fun V => attributeNames (Attribute.others as "as") ⊆ V ∧ Q V)
      (new ++ (responseName? as).toList) := by
  refine tells_look fun inStep => ?_
  split
  · exact tells_fail _ _ _ _
  · refine tells_look fun inMessage => ?_
    split
    · exact tells_fail _ _ _ _
    · refine tells_stepName ((tells_attributes has).both fun _ => ?_)
      generalize responseName? as = name
      refine Tells.then (tells_same fun _ => rfl) fun _ => Tells.imp (hbody.bind fun _ =>
        Tells.then (Q := fun _ => True) (tells_same fun _ => rfl) fun _ => ?_) fun V h => h.1
      cases name with
      | none => exact tells_pure ()
      | some name => exact tells_declare name

theorem tells_reference {follow : Follow}
    (has : ∀ e ∈ (Attribute.others as "prompt").flatMap Attribute.expressions, e.DeclaresNothing) :
    Tells (reference follow info as) (fun _ => True) [] := by
  have hname : Tells (promptName info as) (fun _ => True) [] := by
    unfold promptName
    repeat' split
    all_goals first | exact tells_pure _ | exact tells_throw _ _ _
  have hfollowed : ∀ prompt, Tells (followed follow prompt info) (fun _ => True) [] := by
    refine fun prompt => tells_look fun ⟨result, cache⟩ => Tells.then (tells_same ?_) fun _ => ?_
    · exact fun _ => rfl
    · split
      · exact tells_pure _
      · split
        · refine Tells.then (tells_same ?_) fun _ => tells_throw _ _ _
          exact fun _ => rfl
        · exact tells_throw _ _ _
  refine hname.then fun prompt => (tells_attributes has).then fun _ =>
    (hfollowed prompt).then fun child => tells_modify (fun _ => rfl) fun s name h => ?_
  exact NameSet.mem_foldl_insert.2 (.inl h)

end Surveying

/-! ### Nodes -/

namespace Node

open Surveying

variable {follow : Follow}

theorem tells_surveyAll {ns : List Node}
    (h : ∀ n ∈ ns, Tells (n.survey follow) (fun V => n.Known V) n.declares) :
    Tells (surveyAll follow ns) (fun V => KnownAll V ns) (declaresAll ns) := by
  induction ns with
  | nil => exact tells_pure ()
  | cons n rest ih =>
    exact (h n List.mem_cons_self).bind fun _ => ih fun m hm => h m (List.mem_cons_of_mem _ hm)

theorem tells_surveyElse {o : Option Node}
    (h : ∀ n ∈ o, Tells (n.survey follow) (fun V => n.Known V) n.declares)
    (hnothing : ∀ n ∈ o, n.declares = []) :
    Tells (surveyElse follow o) (fun V => KnownElse V o) [] := by
  cases o with
  | none => exact tells_pure ()
  | some n =>
    have hn := h n rfl
    rw [hnothing n rfl] at hn
    exact hn

/-- A survey of a node that does not stop has seen that its names are known wherever the parameters
are visible. -/
theorem tells_survey (n : Node) (h : n.Orderly) :
    Tells (n.survey follow) (fun V => n.Known V) n.declares := by
  -- the induction is on the tree; what a node declares is told beside what it needs
  induction n using Node.induct with
  | step n ih =>
    have hchild : ∀ m ∈ n.childNodes, Tells (m.survey follow) (fun V => m.Known V) m.declares :=
      fun m hm => ih m hm (h.child hm)
    obtain ⟨hplain, helse⟩ := h n (mem_nodes_self n)
    cases n with
    | fragment info children => exact tells_inCopy (tells_surveyAll hchild)
    | config info value raw => exact tells_pure ()
    | text info data => exact tells_pure ()
    | comment info data => exact tells_pure ()
    | mustache info e => exact tells_mustache hplain
    | ifBlock info condition elseIf children otherwise =>
      have hall := tells_surveyAll fun m hm => hchild m (List.mem_append_left _ hm)
      have hother := tells_surveyElse (fun m hm => hchild m
        (List.mem_append_right _ (Option.mem_toList.2 hm))) helse
      exact (tells_mention_one (hplain condition (by simp [expressions]))).both fun _ =>
        (tells_inCopy hall).both fun _ => hother
    | forBlock info header children otherwise =>
      have hall := tells_surveyAll fun m hm => hchild m (List.mem_append_left _ hm)
      have hother := tells_surveyElse (fun m hm => hchild m
        (List.mem_append_right _ (Option.mem_toList.2 hm))) helse
      refine tells_forBlock (hplain _ (by simp [expressions])) (fun e he => hplain e ?_) hall hother
      exact List.mem_cons_of_mem _ (Option.mem_toList.2 (ForHeader.key_of_usedKey he))
    | element info name as children =>
      have hall := tells_surveyAll hchild
      have has : ∀ e ∈ as.flatMap Attribute.expressions, e.DeclaresNothing := hplain
      -- leaving an attribute out leaves fewer expressions
      have hothers : ∀ name, ∀ e ∈ (Attribute.others as name).flatMap Attribute.expressions,
          e.DeclaresNothing := fun name e he => by
        obtain ⟨a, ha, he⟩ := List.mem_flatMap.1 he
        exact has e (List.mem_flatMap.2 ⟨a, (List.mem_filter.1 ha).1, he⟩)
      simp only [survey, Surveying.element, Known, declares]
      cases TagKind.ofName name with
      | message role => exact tells_message has hall
      | content kind => exact tells_contentTag has hall
      | toolCall => exact tells_toolCall has hall
      | reference => exact tells_reference (hothers "prompt")
      | step => exact tells_step (hothers "as") hall
      | unknown =>
        refine Tells.then (tells_same ?_) fun _ => (tells_attributes has).then fun _ => hall
        exact fun _ => rfl

end Node

end PromptMarkup

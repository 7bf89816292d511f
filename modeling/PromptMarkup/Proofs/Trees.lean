/-
The parts of syntax trees.

* `Expr.parts`, `Node.childNodes` — what stands directly inside of an expression or a node;
* `Expr.subterms`, `Node.nodes` — an expression or a node together with everything inside of it;
* `Node.expressions` — the expressions that stand in a node itself;
* `Expr.induct`, `Node.induct` — a property holds for every tree if it passes from the parts of a
  tree to the tree.

Design notes: expressions and nodes are nested through lists and through types of their own.  The
two induction principles hide that nesting, so that a proof has one case for each form of a tree and
treats lists apart.
-/
import PromptMarkup.Template.Syntax

namespace PromptMarkup

/-! ### Expressions -/

/-- The expression of an element. -/
def Element.expr : Element → Expr
  | .item e => e
  | .spread e => e

/-- The expressions of a key. -/
def Key.exprs : Key → List Expr
  | .fixed _ => []
  | .computed e => [e]

/-- The expressions of a member of an object. -/
def Member.exprs : Member → List Expr
  | .property key value => key.exprs ++ [value]
  | .spread e => [e]

/-- The expressions of what is read from an object. -/
def Property.exprs : Property → List Expr
  | .named _ => []
  | .computed e => [e]

namespace Expr

/-- The expressions directly inside of an expression. -/
def parts : Expr → List Expr
  | literal _ _ => []
  | identifier _ _ => []
  | array _ elements => elements.map Element.expr
  | object _ members => members.flatMap Member.exprs
  | sequence _ items => items
  | binary _ _ left right => [left, right]
  | logical _ _ left right => [left, right]
  | unary _ _ argument => [argument]
  | update _ _ _ argument => [argument]
  | assignment _ _ target value => [target, value]
  | conditional _ test consequent alternate => [test, consequent, alternate]
  | member _ owner property _ => owner :: property.exprs
  | call _ callee arguments _ => callee :: arguments.map Element.expr
  | chain _ inner => [inner]

theorem sizeOf_expr_lt (x : Element) : sizeOf x.expr < sizeOf x := by
  cases x <;> simp [Element.expr]

theorem sizeOf_lt_of_mem_key {x : Expr} {k : Key} (h : x ∈ k.exprs) : sizeOf x < sizeOf k := by
  cases k with
  | fixed name => simp [Key.exprs] at h
  | computed e =>
    simp only [Key.exprs, List.mem_singleton] at h
    subst h
    simp

theorem sizeOf_lt_of_mem_member {x : Expr} {m : Member} (h : x ∈ m.exprs) :
    sizeOf x < sizeOf m := by
  cases m with
  | property key value =>
    simp only [Member.exprs, List.mem_append, List.mem_singleton] at h
    rcases h with h | rfl
    · have := sizeOf_lt_of_mem_key h
      simp only [Member.property.sizeOf_spec]
      omega
    · simp only [Member.property.sizeOf_spec]
      omega
  | spread e =>
    simp only [Member.exprs, List.mem_singleton] at h
    subst h
    simp

theorem sizeOf_lt_of_mem_property {x : Expr} {p : Property} (h : x ∈ p.exprs) :
    sizeOf x < sizeOf p := by
  cases p with
  | named name => simp [Property.exprs] at h
  | computed e =>
    simp only [Property.exprs, List.mem_singleton] at h
    subst h
    simp

theorem sizeOf_lt_of_mem_elements {x : Expr} {es : List Element}
    (h : x ∈ es.map Element.expr) : sizeOf x < sizeOf es := by
  obtain ⟨y, hy, rfl⟩ := List.mem_map.1 h
  exact Nat.lt_trans (sizeOf_expr_lt y) (List.sizeOf_lt_of_mem hy)

theorem sizeOf_lt_of_mem_parts {e x : Expr} (h : x ∈ e.parts) : sizeOf x < sizeOf e := by
  cases e with
  | literal s v => simp [parts] at h
  | identifier s name => simp [parts] at h
  | array s elements =>
    have := sizeOf_lt_of_mem_elements h
    simp only [array.sizeOf_spec]
    omega
  | object s members =>
    obtain ⟨m, hm, hx⟩ := List.mem_flatMap.1 h
    have h1 := sizeOf_lt_of_mem_member hx
    have h2 := List.sizeOf_lt_of_mem hm
    simp only [object.sizeOf_spec]
    omega
  | sequence s items =>
    have := List.sizeOf_lt_of_mem (show x ∈ items from h)
    simp only [sequence.sizeOf_spec]
    omega
  | binary s op left right =>
    rcases (by simpa [parts] using h : x = left ∨ x = right) with rfl | rfl
    · simp only [binary.sizeOf_spec]
      omega
    · simp only [binary.sizeOf_spec]
      omega
  | logical s op left right =>
    rcases (by simpa [parts] using h : x = left ∨ x = right) with rfl | rfl
    · simp only [logical.sizeOf_spec]
      omega
    · simp only [logical.sizeOf_spec]
      omega
  | unary s op argument =>
    obtain rfl : x = argument := by simpa [parts] using h
    simp only [unary.sizeOf_spec]
    omega
  | update s op leading argument =>
    obtain rfl : x = argument := by simpa [parts] using h
    simp
  | assignment s op target value =>
    rcases (by simpa [parts] using h : x = target ∨ x = value) with rfl | rfl
    · simp only [assignment.sizeOf_spec]
      omega
    · simp only [assignment.sizeOf_spec]
      omega
  | conditional s test consequent alternate =>
    rcases (by simpa [parts] using h : x = test ∨ x = consequent ∨ x = alternate)
      with rfl | rfl | rfl
    · simp only [conditional.sizeOf_spec]
      omega
    · simp only [conditional.sizeOf_spec]
      omega
    · simp only [conditional.sizeOf_spec]
      omega
  | member s owner property optional =>
    rcases List.mem_cons.1 h with rfl | h
    · simp
      omega
    · have := sizeOf_lt_of_mem_property h
      simp only [member.sizeOf_spec]
      omega
  | call s callee arguments optional =>
    rcases List.mem_cons.1 h with rfl | h
    · simp
      omega
    · have := sizeOf_lt_of_mem_elements h
      simp only [call.sizeOf_spec]
      omega
  | chain s inner =>
    obtain rfl : x = inner := by simpa [parts] using h
    simp only [chain.sizeOf_spec]
    omega

/-- A property holds for every expression if it passes from the parts of an expression to the
expression. -/
theorem induct {P : Expr → Prop} (step : ∀ e, (∀ x ∈ e.parts, P x) → P e) : ∀ e, P e := by
  intro e
  induction h : sizeOf e using Nat.strongRecOn generalizing e with
  | ind n ih =>
    subst h
    exact step e fun x hx => ih (sizeOf x) (sizeOf_lt_of_mem_parts hx) x rfl

mutual

/-- An expression and all expressions inside of it. -/
def subterms : Expr → List Expr
  | literal s v => [literal s v]
  | identifier s name => [identifier s name]
  | array s elements => array s elements :: elementSubterms elements
  | object s members => object s members :: memberSubterms members
  | sequence s items => sequence s items :: allSubterms items
  | binary s op left right => binary s op left right :: (subterms left ++ subterms right)
  | logical s op left right => logical s op left right :: (subterms left ++ subterms right)
  | unary s op argument => unary s op argument :: subterms argument
  | update s op leading argument => update s op leading argument :: subterms argument
  | assignment s op target value =>
    assignment s op target value :: (subterms target ++ subterms value)
  | conditional s test consequent alternate =>
    conditional s test consequent alternate ::
      (subterms test ++ subterms consequent ++ subterms alternate)
  | member s owner property optional =>
    member s owner property optional :: (subterms owner ++ propertySubterms property)
  | call s callee arguments optional =>
    call s callee arguments optional :: (subterms callee ++ elementSubterms arguments)
  | chain s inner => chain s inner :: subterms inner

/-- All expressions inside of elements. -/
def elementSubterms : List Element → List Expr
  | [] => []
  | .item e :: rest => subterms e ++ elementSubterms rest
  | .spread e :: rest => subterms e ++ elementSubterms rest

/-- All expressions inside of members. -/
def memberSubterms : List Member → List Expr
  | [] => []
  | .property key value :: rest => keySubterms key ++ subterms value ++ memberSubterms rest
  | .spread e :: rest => subterms e ++ memberSubterms rest

/-- All expressions inside of a key. -/
def keySubterms : Key → List Expr
  | .fixed _ => []
  | .computed e => subterms e

/-- All expressions inside of what is read from an object. -/
def propertySubterms : Property → List Expr
  | .named _ => []
  | .computed e => subterms e

/-- All expressions inside of several expressions. -/
def allSubterms : List Expr → List Expr
  | [] => []
  | e :: rest => subterms e ++ allSubterms rest

end

theorem elementSubterms_eq (es : List Element) :
    elementSubterms es = (es.map Element.expr).flatMap subterms := by
  induction es with
  | nil => rfl
  | cons x rest ih => cases x <;> simp [elementSubterms, Element.expr, ih]

theorem keySubterms_eq (k : Key) : keySubterms k = k.exprs.flatMap subterms := by
  cases k <;> simp [keySubterms, Key.exprs]

theorem memberSubterms_eq (ms : List Member) :
    memberSubterms ms = (ms.flatMap Member.exprs).flatMap subterms := by
  induction ms with
  | nil => rfl
  | cons m rest ih => cases m <;> simp [memberSubterms, Member.exprs, keySubterms_eq, ih]

theorem propertySubterms_eq (p : Property) :
    propertySubterms p = p.exprs.flatMap subterms := by
  cases p <;> simp [propertySubterms, Property.exprs]

theorem allSubterms_eq (es : List Expr) : allSubterms es = es.flatMap subterms := by
  induction es with
  | nil => rfl
  | cons e rest ih => simp [allSubterms, ih]

theorem subterms_eq (e : Expr) : e.subterms = e :: e.parts.flatMap subterms := by
  cases e <;>
    simp [subterms, parts, elementSubterms_eq, memberSubterms_eq, propertySubterms_eq,
      allSubterms_eq]

theorem mem_subterms_self (e : Expr) : e ∈ e.subterms := by
  rw [subterms_eq]
  exact List.mem_cons_self

theorem mem_subterms_of_part {e x y : Expr} (hx : x ∈ e.parts) (hy : y ∈ x.subterms) :
    y ∈ e.subterms := by
  rw [subterms_eq]
  exact List.mem_cons_of_mem _ (List.mem_flatMap.2 ⟨x, hx, hy⟩)

theorem mem_subterms_trans {e x y : Expr} (hx : x ∈ e.subterms) (hy : y ∈ x.subterms) :
    y ∈ e.subterms := by
  induction e using Expr.induct with
  | step e ih =>
    rw [subterms_eq] at hx
    rcases List.mem_cons.1 hx with rfl | hx
    · exact hy
    · obtain ⟨z, hz, hx⟩ := List.mem_flatMap.1 hx
      exact mem_subterms_of_part hz (ih z hz hx)

end Expr

/-! ### Nodes -/

namespace Node

theorem sizeOf_lt_of_mem_childNodes {n m : Node} (h : m ∈ n.childNodes) :
    sizeOf m < sizeOf n := by
  have helse : ∀ {o : Option Node}, m ∈ o.toList → sizeOf m < sizeOf o := by
    rintro (_ | x) hx
    · simp at hx
    · obtain rfl : m = x := by simpa using hx
      simp
  cases n with
  | config i v raw => simp [childNodes] at h
  | text i data => simp [childNodes] at h
  | comment i data => simp [childNodes] at h
  | mustache i e => simp [childNodes] at h
  | fragment i children =>
    have := List.sizeOf_lt_of_mem (show m ∈ children from h)
    simp only [fragment.sizeOf_spec]
    omega
  | element i name attributes children =>
    have := List.sizeOf_lt_of_mem (show m ∈ children from h)
    simp only [element.sizeOf_spec]
    omega
  | ifBlock i condition elseIf children otherwise =>
    rcases List.mem_append.1 h with h | h
    · have := List.sizeOf_lt_of_mem h
      simp only [ifBlock.sizeOf_spec]
      omega
    · have := helse h
      simp only [ifBlock.sizeOf_spec]
      omega
  | forBlock i header children otherwise =>
    rcases List.mem_append.1 h with h | h
    · have := List.sizeOf_lt_of_mem h
      simp only [forBlock.sizeOf_spec]
      omega
    · have := helse h
      simp only [forBlock.sizeOf_spec]
      omega

/-- A property holds for every node if it passes from the nodes directly inside of a node to the
node. -/
theorem induct {P : Node → Prop} (step : ∀ n, (∀ m ∈ n.childNodes, P m) → P n) : ∀ n, P n := by
  intro n
  induction h : sizeOf n using Nat.strongRecOn generalizing n with
  | ind k ih =>
    subst h
    exact step n fun m hm => ih (sizeOf m) (sizeOf_lt_of_mem_childNodes hm) m rfl

mutual

/-- A node and all nodes inside of it, in the order of the document. -/
def nodes : Node → List Node
  | fragment i children => fragment i children :: nodesAll children
  | config i value raw => [config i value raw]
  | text i data => [text i data]
  | comment i data => [comment i data]
  | mustache i e => [mustache i e]
  | ifBlock i condition elseIf children otherwise =>
    ifBlock i condition elseIf children otherwise :: (nodesAll children ++ nodesElse otherwise)
  | forBlock i header children otherwise =>
    forBlock i header children otherwise :: (nodesAll children ++ nodesElse otherwise)
  | element i name attributes children =>
    element i name attributes children :: nodesAll children

/-- All nodes of a list and inside of them. -/
def nodesAll : List Node → List Node
  | [] => []
  | n :: rest => nodes n ++ nodesAll rest

/-- All nodes of an `else` part, if there is one. -/
def nodesElse : Option Node → List Node
  | none => []
  | some n => nodes n

end

theorem nodesAll_eq (ns : List Node) : nodesAll ns = ns.flatMap nodes := by
  induction ns with
  | nil => rfl
  | cons n rest ih => simp [nodesAll, ih]

theorem nodesElse_eq (o : Option Node) : nodesElse o = nodesAll o.toList := by
  cases o <;> simp [nodesElse, nodesAll]

@[simp] theorem nodesAll_append (l r : List Node) :
    nodesAll (l ++ r) = nodesAll l ++ nodesAll r := by
  simp [nodesAll_eq]

theorem nodes_eq (n : Node) : n.nodes = n :: nodesAll n.childNodes := by
  cases n <;> simp [nodes, childNodes, nodesElse_eq, nodesAll]

theorem mem_nodesAll {m : Node} {ns : List Node} :
    m ∈ nodesAll ns ↔ ∃ n ∈ ns, m ∈ n.nodes := by
  simp [nodesAll_eq]

theorem mem_nodes_self (n : Node) : n ∈ n.nodes := by
  rw [nodes_eq]
  exact List.mem_cons_self

theorem mem_nodes_of_child {n m x : Node} (hm : m ∈ n.childNodes) (hx : x ∈ m.nodes) :
    x ∈ n.nodes := by
  rw [nodes_eq]
  exact List.mem_cons_of_mem _ (mem_nodesAll.2 ⟨m, hm, hx⟩)

theorem mem_nodes_trans {n m x : Node} (hm : m ∈ n.nodes) (hx : x ∈ m.nodes) : x ∈ n.nodes := by
  induction n using Node.induct with
  | step n ih =>
    rw [nodes_eq] at hm
    rcases List.mem_cons.1 hm with rfl | hm
    · exact hx
    · obtain ⟨c, hc, hm⟩ := mem_nodesAll.1 hm
      exact mem_nodes_of_child hc (ih c hc hm)

/-- A node in a tree is its root, or directly inside of another node. -/
theorem eq_or_child_of_mem_nodes {n m : Node} (h : m ∈ n.nodes) :
    m = n ∨ ∃ x ∈ n.nodes, m ∈ x.childNodes := by
  induction n using Node.induct with
  | step n ih =>
    rw [nodes_eq] at h
    rcases List.mem_cons.1 h with rfl | h
    · exact .inl rfl
    · obtain ⟨c, hc, hm⟩ := mem_nodesAll.1 h
      rcases ih c hc hm with rfl | ⟨x, hx, hm⟩
      · exact .inr ⟨n, mem_nodes_self n, hc⟩
      · exact .inr ⟨x, mem_nodes_of_child hc hx, hm⟩

/-- The `else` part of a block. -/
def elsePart? : Node → Option Node
  | ifBlock _ _ _ _ otherwise | forBlock _ _ _ otherwise => otherwise
  | _ => none

/-- The expressions of a node, without those of the nodes inside of it. -/
def expressions : Node → List Expr
  | mustache _ e => [e]
  | ifBlock _ condition _ _ _ => [condition]
  | forBlock _ header _ _ => header.iterable :: header.key.toList
  | element _ _ attributes _ => attributes.flatMap Attribute.expressions
  | _ => []

end Node

end PromptMarkup

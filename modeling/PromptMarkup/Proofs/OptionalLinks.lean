/-
Optional chains.

* `Expr.spine` — the members and calls that a chain is made of;
* `Expr.follow` — what one of them does with the value to the left of it;
* `Expr.CutsAt` — an optional link with undefined or null to the left of it;
* `Expr.required` — the same chain, in which no link is optional;
* `Expr.evaluate_chain` — a chain that is not cut short is evaluated as if no link were optional,
  and one that is cut short is undefined and leaves what the part to the left of the first such link
  leaves.

Design notes: members and calls differ in `follow` and in nothing else, so that every argument is an
induction along the chain (`Expr.inductLinks`) with one case for both.  The part to the left of a
link is evaluated from the scope in which the whole chain starts, and this is why all that is said
of the links speaks of one scope.  A chain in brackets is what another chain starts with; it keeps
its marks.
-/
import PromptMarkup.Expr.Evaluation

namespace PromptMarkup

open PromptMarkup.Computation Evaluation

namespace Expr

/-! ### The links of a chain -/

/-- A member or a call. -/
def isLink : Expr → Bool
  | member _ _ _ _ | call _ _ _ _ => true
  | _ => false

/-- A link that is optional. -/
def isOptional : Expr → Bool
  | member _ _ _ optional | call _ _ _ optional => optional
  | _ => false

/-- What stands to the left of a link: what it is read from, or what it calls. -/
def left : Expr → Expr
  | member _ owner _ _ => owner
  | call _ callee _ _ => callee
  | e => e

/-- The links of a chain, the last one first. -/
def spine : Expr → List Expr
  | member span owner property optional => member span owner property optional :: owner.spine
  | call span callee arguments optional => call span callee arguments optional :: callee.spine
  | _ => []

/-- The chain, in which no link is optional. -/
def unmarked : Expr → Expr
  | member span owner property _ => member span owner.unmarked property false
  | call span callee arguments _ => call span callee.unmarked arguments false
  | e => e

/-- The links and what they start with, without the boundary of an optional chain around them. -/
def body : Expr → Expr
  | chain _ inner => inner
  | e => e

/-- The expression with all optional marks of its own chain removed. -/
def required : Expr → Expr
  | chain span inner => chain span inner.unmarked
  | e => e.unmarked

/-- What a link does with the value to the left of it. -/
def follow (host : Host) : Expr → Value → Evaluation Value
  | member span _ property _, v => do readProperty v (← propertyKey host property) span
  | call span callee arguments _, f => do callFunction host callee span f (← items host arguments)
  | _, v => pure v

/-- Induction along a chain, from what it starts with to its last link. -/
theorem inductLinks {motive : Expr → Prop} (head : ∀ e, e.isLink = false → motive e)
    (link : ∀ e, e.isLink = true → motive e.left → motive e) (e : Expr) : motive e := by
  induction e using spine.induct with
  | case1 span owner property optional ih => exact link _ rfl ih
  | case2 span callee arguments optional ih => exact link _ rfl ih
  | case3 e hmember hcall =>
    refine head e ?_
    unfold isLink
    split
    · exact absurd rfl (hmember _ _ _ _)
    · exact absurd rfl (hcall _ _ _ _)
    · rfl

section Links

variable {host : Host} {e l : Expr}

theorem spine_of_isLink (h : e.isLink = true) : e.spine = e :: e.left.spine := by
  cases e with
  | member => rfl
  | call => rfl
  | _ => cases h

theorem spine_of_not_isLink (h : e.isLink = false) : e.spine = [] := by
  cases e with
  | member => cases h
  | call => cases h
  | _ => rfl

theorem unmarked_of_not_isLink (h : e.isLink = false) : e.unmarked = e := by
  cases e with
  | member => cases h
  | call => cases h
  | _ => rfl

@[simp] theorem isLink_unmarked (e : Expr) : e.unmarked.isLink = e.isLink := by
  cases e <;> rfl

@[simp] theorem isOptional_unmarked (e : Expr) : e.unmarked.isOptional = false := by
  cases e <;> rfl

theorem left_unmarked (h : e.isLink = true) : e.unmarked.left = e.left.unmarked := by
  cases e with
  | member => rfl
  | call => rfl
  | _ => cases h

@[simp] theorem span_unmarked (e : Expr) : e.unmarked.span = e.span := by
  cases e <;> rfl

/-- The name of a function in a message has no marks. -/
@[simp] theorem calleeName_unmarked (e : Expr) : e.unmarked.calleeName = e.calleeName := by
  induction e using inductLinks with
  | head e he => rw [unmarked_of_not_isLink he]
  | link e he ih =>
    cases e with
    | member span owner property optional =>
      cases property with
      | named name => exact congrArg (· ++ "." ++ name) ih
      | computed key => rfl
    | call => rfl
    | _ => cases he

/-- What a link does does not depend on marks. -/
theorem follow_unmarked (host : Host) (e : Expr) (v : Value) :
    e.unmarked.follow host v = e.follow host v := by
  cases e with
  | call span callee arguments optional =>
    simp only [unmarked, follow, callFunction, calleeName_unmarked, span_unmarked]
  | _ => rfl

/-- A link is followed unless the chain was cut short to the left of it, or is cut short here. -/
theorem links_of_isLink (h : e.isLink = true) :
    links host e = links host e.left >>= fun found =>
      match found with
      | none => pure none
      | some v => if e.isOptional && v.isNullish then pure none else some <$> e.follow host v := by
  cases e with
  | member span owner property optional =>
    rw [links]
    refine bind_congr fun found => ?_
    cases found with
    | none => rfl
    | some v => simp only [isOptional, follow, map_eq_pure_bind, bind_assoc]
  | call span callee arguments optional =>
    rw [links]
    refine bind_congr fun found => ?_
    cases found with
    | none => rfl
    | some f => simp only [isOptional, follow, map_eq_pure_bind, bind_assoc]
  | _ => cases h

end Links

/-! ### Where a chain is cut short -/

section Cuts

variable {host : Host} {e l : Expr} {s t : Scope}

/-- A link at which a chain is cut short that is evaluated from the scope `s`: the link is optional,
and what stands to the left of it is undefined or null, and leaves the scope `t`. -/
def CutsAt (host : Host) (s : Scope) (l : Expr) (t : Scope) : Prop :=
  l.isOptional = true ∧ ∃ v : Value, (l.left.evaluate host).runIn s = (.ok v, t) ∧
    v.isNullish = true

/-- The first link at which a chain is cut short. -/
structure FirstCut (host : Host) (s : Scope) (e l : Expr) (t : Scope) : Prop where
  mem : l ∈ e.spine
  cut : l.CutsAt host s t
  first : ∀ k ∈ l.left.spine, ∀ u, ¬k.CutsAt host s u

theorem runIn_evaluate (host : Host) (e : Expr) (s : Scope) :
    (e.evaluate host).runIn s =
      ((runFrom s (links host e)).1.map orUndefined, (runFrom s (links host e)).2) :=
  runFrom_map s orUndefined (links host e)

/-- The boundary of a chain does not change its value. -/
theorem runIn_evaluate_body (host : Host) (e : Expr) (s : Scope) :
    (e.body.evaluate host).runIn s = (e.evaluate host).runIn s := by
  cases e with
  | chain span inner =>
    rw [body, runIn_evaluate, runIn_evaluate, links, runFrom_bind]
    rcases runFrom s (links host inner) with ⟨p | found, t⟩
    · rfl
    · rfl
  | _ => rfl

/-- A chain that is cut short has a first link where it is. -/
theorem exists_firstCut (h : ∃ l ∈ e.spine, ∃ t, l.CutsAt host s t) :
    ∃ l t, FirstCut host s e l t := by
  induction e using inductLinks with
  | head e he =>
    obtain ⟨l, hl, -⟩ := h
    rw [spine_of_not_isLink he] at hl
    cases hl
  | link e he ih =>
    -- a cut further to the left comes first
    by_cases hleft : ∃ l ∈ e.left.spine, ∃ t, l.CutsAt host s t
    · obtain ⟨l, t, hmem, hcut, hfirst⟩ := ih hleft
      exact ⟨l, t, spine_of_isLink he ▸ List.mem_cons_of_mem e hmem, hcut, hfirst⟩
    · obtain ⟨l, hl, t, hcut⟩ := h
      rw [spine_of_isLink he] at hl
      rcases List.mem_cons.1 hl with rfl | hl
      · refine ⟨l, t, spine_of_isLink he ▸ List.mem_cons_self, hcut,
          fun k hk u hu => hleft ⟨k, hk, u, hu⟩⟩
      · exact absurd ⟨l, hl, t, hcut⟩ hleft

/-- A chain that is cut short at none of its links is evaluated as if none were optional. -/
theorem links_unmarked (h : ∀ l ∈ e.spine, ∀ t, ¬l.CutsAt host s t) :
    runFrom s (links host e.unmarked) = runFrom s (links host e) := by
  induction e using inductLinks with
  | head e he => rw [unmarked_of_not_isLink he]
  | link e he ih =>
    rw [spine_of_isLink he] at h
    have hleft := ih fun l hl => h l (List.mem_cons_of_mem e hl)
    have hmarked : e.unmarked.isLink = true := (isLink_unmarked e).trans he
    rw [links_of_isLink he, links_of_isLink hmarked, runFrom_bind, runFrom_bind,
      left_unmarked he, hleft]
    rcases hrun : runFrom s (links host e.left) with ⟨p | _ | v, t⟩
    · rfl
    · rfl
    · -- the link would cut the chain short if it were optional and had undefined or null to the
      -- left of it
      have hstay : (e.isOptional && v.isNullish) = false := by
        refine Bool.eq_false_iff.2 fun hcut => ?_
        obtain ⟨hoptional, hnullish⟩ := (Bool.and_eq_true _ _).mp hcut
        refine h e List.mem_cons_self t ⟨hoptional, v, ?_, hnullish⟩
        rw [runIn_evaluate, hrun]
        rfl
      dsimp only
      rw [hstay, isOptional_unmarked, follow_unmarked]
      rfl

/-- At a link that cuts a chain short nothing is followed. -/
theorem CutsAt.links (h : l.CutsAt host s t) (hl : l.isLink = true) :
    runFrom s (links host l) = (.ok none, t) := by
  obtain ⟨hoptional, v, hrun, hnullish⟩ := h
  rw [runIn_evaluate] at hrun
  rw [links_of_isLink hl, runFrom_bind]
  rcases hfound : runFrom s (Expr.links host l.left) with ⟨p | _ | w, u⟩
  · rw [hfound] at hrun
    cases hrun
  · rw [hfound] at hrun
    obtain ⟨-, rfl⟩ := Prod.mk.inj hrun
    rfl
  · rw [hfound] at hrun
    obtain ⟨hw, rfl⟩ := Prod.mk.inj hrun
    obtain rfl : w = v := Except.ok.inj hw
    dsimp only
    rw [hoptional, hnullish]
    rfl

/-- A chain that is cut short at one of its links is not followed behind it. -/
theorem links_of_cut (hmem : l ∈ e.spine) (hcut : l.CutsAt host s t) : runFrom s (links host e) =
    (.ok none, t) := by
  induction e using inductLinks with
  | head e he =>
    rw [spine_of_not_isLink he] at hmem
    cases hmem
  | link e he ih =>
    rw [spine_of_isLink he] at hmem
    rcases List.mem_cons.1 hmem with rfl | hmem
    · exact hcut.links he
    · rw [links_of_isLink he, runFrom_bind, ih hmem]
      rfl

theorem runIn_evaluate_of_cut (hmem : l ∈ e.body.spine) (hcut : l.CutsAt host s t) :
    (e.evaluate host).runIn s = (.ok .undefined, t) := by
  rw [← runIn_evaluate_body, runIn_evaluate, links_of_cut hmem hcut]
  rfl

end Cuts

/-- Optional marks do nothing but cut a chain short.  A chain in which no optional link has
undefined or null to the left of it ends as the chain without marks does, with the same value or
problem and the same scope.  Any other is undefined and leaves the scope that the part to the left
of the first such link leaves; and so does every chain that goes on from this part with an optional
link, whatever keys and arguments follow. -/
theorem evaluate_chain (host : Host) (e : Expr) (s : Scope) :
    ((∀ l ∈ e.body.spine, ∀ t, ¬l.CutsAt host s t) →
      (e.evaluate host).runIn s = (e.required.evaluate host).runIn s) ∧
    ((∃ l ∈ e.body.spine, ∃ t, l.CutsAt host s t) →
      ∃ l t, FirstCut host s e.body l t ∧ (e.evaluate host).runIn s = (.ok .undefined, t) ∧
        ∀ e' : Expr, (∃ l' ∈ e'.body.spine, l'.isOptional = true ∧ l'.left = l.left) →
          (e'.evaluate host).runIn s = (.ok .undefined, t)) := by
  refine ⟨fun huncut => ?_, fun hcut => ?_⟩
  · have hbody : e.required.body = e.body.unmarked := by
      cases e <;> rfl
    rw [← runIn_evaluate_body host e, ← runIn_evaluate_body host e.required, hbody, runIn_evaluate,
      runIn_evaluate, links_unmarked huncut]
  · obtain ⟨l, t, hfirst⟩ := exists_firstCut hcut
    refine ⟨l, t, hfirst, runIn_evaluate_of_cut hfirst.mem hfirst.cut, ?_⟩
    rintro e' ⟨l', hmem, hoptional, hleft⟩
    obtain ⟨-, v, hrun, hnullish⟩ := hfirst.cut
    exact runIn_evaluate_of_cut hmem ⟨hoptional, v, hleft ▸ hrun, hnullish⟩

/-- `null?.[k = 1].a` is undefined, and nothing is assigned to `k`. -/
example (host : Host) (s : Scope) :
    ((chain ⟨0, 17⟩ (member ⟨0, 17⟩ (member ⟨0, 15⟩ (literal ⟨0, 4⟩ .null)
      (.computed (assignment ⟨7, 12⟩ .assign (identifier ⟨7, 8⟩ "k")
        (literal ⟨11, 12⟩ (.number 1)))) true)
      (.named "a") false)).evaluate host).runIn s = (.ok .undefined, s) := by
  rfl

end Expr

end PromptMarkup

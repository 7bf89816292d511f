/-
Expressions at other offsets.

* `Expr.relocate` — an expression with its offsets changed;
* `Grammar.Derives.relocate` — the grammar derives it from the tokens at the same other offsets;
* `Expr.assigns_relocate` — it assigns to what it assigned to before.

Design notes: the grammar copies offsets from tokens to trees and never compares them, so the
function that changes them is arbitrary.
-/
import PromptMarkup.Proofs.Grammar
import PromptMarkup.Proofs.Lexing

namespace PromptMarkup

/-- The span with its offsets changed. -/
def Span.relocate (f : Nat → Nat) (s : Span) : Span :=
  ⟨f s.start, f s.stop⟩

namespace Expr

mutual

/-- The expression with all its offsets changed. -/
def relocate (f : Nat → Nat) : Expr → Expr
  | literal s v => literal (s.relocate f) v
  | identifier s name => identifier (s.relocate f) name
  | array s elements => array (s.relocate f) (relocateElements f elements)
  | object s members => object (s.relocate f) (relocateMembers f members)
  | sequence s items => sequence (s.relocate f) (relocateAll f items)
  | binary s op left right => binary (s.relocate f) op (relocate f left) (relocate f right)
  | logical s op left right => logical (s.relocate f) op (relocate f left) (relocate f right)
  | unary s op argument => unary (s.relocate f) op (relocate f argument)
  | update s op leading argument => update (s.relocate f) op leading (relocate f argument)
  | assignment s op target value =>
    assignment (s.relocate f) op (relocate f target) (relocate f value)
  | conditional s test consequent alternate =>
    conditional (s.relocate f) (relocate f test) (relocate f consequent) (relocate f alternate)
  | member s owner property optional =>
    member (s.relocate f) (relocate f owner) (relocateProperty f property) optional
  | call s callee arguments optional =>
    call (s.relocate f) (relocate f callee) (relocateElements f arguments) optional
  | chain s inner => chain (s.relocate f) (relocate f inner)

/-- The elements with all their offsets changed. -/
def relocateElements (f : Nat → Nat) : List Element → List Element
  | [] => []
  | .item e :: rest => .item (relocate f e) :: relocateElements f rest
  | .spread e :: rest => .spread (relocate f e) :: relocateElements f rest

/-- The members with all their offsets changed. -/
def relocateMembers (f : Nat → Nat) : List Member → List Member
  | [] => []
  | .property key value :: rest =>
    .property (relocateKey f key) (relocate f value) :: relocateMembers f rest
  | .spread e :: rest => .spread (relocate f e) :: relocateMembers f rest

/-- The key with all its offsets changed. -/
def relocateKey (f : Nat → Nat) : Key → Key
  | .fixed name => .fixed name
  | .computed e => .computed (relocate f e)

/-- What is read from an object with all its offsets changed. -/
def relocateProperty (f : Nat → Nat) : Property → Property
  | .named name => .named name
  | .computed e => .computed (relocate f e)

/-- The expressions with all their offsets changed. -/
def relocateAll (f : Nat → Nat) : List Expr → List Expr
  | [] => []
  | e :: rest => relocate f e :: relocateAll f rest

end

end Expr

/-- The element with all its offsets changed. -/
def Element.relocate (f : Nat → Nat) : Element → Element
  | .item e => .item (e.relocate f)
  | .spread e => .spread (e.relocate f)

/-- The member with all its offsets changed. -/
def Member.relocate (f : Nat → Nat) : Member → Member
  | .property key value => .property (Expr.relocateKey f key) (value.relocate f)
  | .spread e => .spread (e.relocate f)

section Relocate

variable (f : Nat → Nat)

@[simp] theorem Expr.relocateElements_eq (es : List Element) :
    relocateElements f es = es.map (Element.relocate f) := by
  induction es with
  | nil => rfl
  | cons x rest ih => cases x <;> simp [relocateElements, Element.relocate, ih]

@[simp] theorem Expr.relocateMembers_eq (ms : List Member) :
    relocateMembers f ms = ms.map (Member.relocate f) := by
  induction ms with
  | nil => rfl
  | cons m rest ih => cases m <;> simp [relocateMembers, Member.relocate, ih]

@[simp] theorem Expr.relocateAll_eq (es : List Expr) :
    relocateAll f es = es.map (Expr.relocate f) := by
  induction es with
  | nil => rfl
  | cons e rest ih => simp [relocateAll, ih]

theorem Expr.span_relocate (e : Expr) : (e.relocate f).span = e.span.relocate f := by
  cases e <;> simp [relocate, span]

@[simp] theorem Expr.start_relocate (e : Expr) : (e.relocate f).start = f e.start :=
  congrArg Span.start (e.span_relocate f)

@[simp] theorem Expr.stop_relocate (e : Expr) : (e.relocate f).stop = f e.stop :=
  congrArg Span.stop (e.span_relocate f)

theorem Expr.parts_relocate (e : Expr) : (e.relocate f).parts = e.parts.map (Expr.relocate f) := by
  -- moving the spans commutes with taking the parts of each piece that holds expressions
  have helements : ∀ es : List Element, (es.map (Element.relocate f)).map Element.expr =
      (es.map Element.expr).map (Expr.relocate f) := by
    intro es
    rw [List.map_map, List.map_map]
    exact List.map_congr_left fun x _ => by cases x <;> rfl
  have hkey : ∀ k : Key, (relocateKey f k).exprs = k.exprs.map (Expr.relocate f) := by
    intro k
    cases k <;> rfl
  have hproperty : ∀ p : Property,
    (relocateProperty f p).exprs = p.exprs.map (Expr.relocate f) := by
    intro p
    cases p <;> rfl
  have hmember : ∀ m : Member, (m.relocate f).exprs = m.exprs.map (Expr.relocate f) := by
    intro m
    cases m <;> simp [Member.relocate, Member.exprs, hkey]
  have hmembers : ∀ ms : List Member, (ms.map (Member.relocate f)).flatMap Member.exprs =
      (ms.flatMap Member.exprs).map (Expr.relocate f) := by
    intro ms
    induction ms with
    | nil => rfl
    | cons m ms ih => simp only [List.map_cons, List.flatMap_cons, List.map_append, hmember, ih]
  cases e <;> simp [relocate, parts, helements, hmembers, hproperty]

theorem Expr.isTarget_relocate (e : Expr) : (e.relocate f).isTarget = e.isTarget := by
  cases e <;> rfl

theorem Expr.hasTarget_relocate (e : Expr) : (e.relocate f).hasTarget = e.hasTarget := by
  cases e <;> simp [relocate, hasTarget, isTarget_relocate]

/-- What an expression assigns to does not depend on offsets. -/
theorem Expr.assigns_relocate {e : Expr} (h : e.Assigns) : (e.relocate f).Assigns := by
  induction e using Expr.induct with
  | step e ih =>
    obtain ⟨htarget, hparts⟩ := assigns_iff.1 h
    refine assigns_iff.2 ⟨(e.hasTarget_relocate f).trans htarget, fun x hx => ?_⟩
    rw [parts_relocate] at hx
    obtain ⟨y, hy, rfl⟩ := List.mem_map.1 hx
    exact ih y hy (hparts y hy)

theorem Connective.join_relocate (op : Connective) (left right : Expr) :
    (op.join left right).relocate f = op.join (left.relocate f) (right.relocate f) := by
  cases op <;> simp [join, Expr.relocate, Span.relocate]

namespace Grammar

/-- What the tokens of a symbol stand for, with all its offsets changed. -/
def Symbol.relocate : (s : Symbol) → s.Tree → s.Tree
  | .others, es => es.map (Expr.relocate f)
  | .chainBody, (e, cut) => (e.relocate f, cut)
  | .elements, xs => xs.map (Element.relocate f)
  | .element, x => x.relocate f
  | .members, ms => ms.map (Member.relocate f)
  | .member, m => m.relocate f
  | .key, k => Expr.relocateKey f k
  | .expression, e | .assign, e | .conditional, e | .tier _, e | .unary, e | .updated,
    e | .callMember, e
  | .primary, e => e.relocate f

theorem stopOf_relocate (last : Nat) (xs : List Lexeme) :
    stopOf (f last) (xs.map (Lexeme.relocate f)) = f (stopOf last xs) := by
  induction xs generalizing last with
  | nil => rfl
  | cons l xs ih => exact ih l.stop

theorem spanOf_relocate {xs : List Lexeme} (hxs : xs ≠ []) :
    spanOf (xs.map (Lexeme.relocate f)) = (spanOf xs).relocate f := by
  cases xs with
  | nil => exact absurd rfl hxs
  | cons l xs => exact congrArg (Span.mk _) (stopOf_relocate f l.stop xs)

/-- Tokens at other offsets derive the tree at these offsets. -/
theorem Derives.relocate {s : Symbol} {xs : List Lexeme} {t : s.Tree} (h : Derives s xs t) :
    Derives s (xs.map (Lexeme.relocate f)) (s.relocate f t) := by
  -- on the derivation: one case a production, the tokens of the production moved with its parts
  induction h with
  | single _ ih => exact .single ih
  | @sequence xs ys first final es _ _ hfinal ih iho =>
    have hlast : (es.map (Expr.relocate f)).getLast? = some (final.relocate f) := by
      rw [List.getLast?_map, hfinal, Option.map_some]
    simpa [Symbol.relocate, Expr.relocate, Span.relocate] using Derives.sequence ih iho hlast
  | @lastOther xs c e hcomma _ ih => exact .lastOther (c := c.relocate f) hcomma ih
  | @other xs ys c e es hcomma _ _ ih iho =>
    rw [List.map_cons, List.map_append]
    exact .other (c := c.relocate f) hcomma ih iho
  | unassigned _ ih => exact .unassigned ih
  | @assignment xs ys o target value op _ hop hspells _ iht ihv =>
    simpa [Symbol.relocate, Expr.relocate, Span.relocate] using
      Derives.assignment (o := o.relocate f) iht hop hspells ihv
  | unconditional _ ih => exact .unconditional ih
  | @conditional xs ys zs q c test consequent alternate _ hquestion _ hcolon _ iht ihc iha =>
    simpa [Symbol.relocate, Expr.relocate, Span.relocate] using
      Derives.conditional (q := q.relocate f) (c := c.relocate f) iht hquestion ihc hcolon iha
  | @joined xs ys o left right level op _ hop hspells _ ihl ihr =>
    rw [List.map_append, List.map_cons, Symbol.relocate, Connective.join_relocate]
    exact .joined (o := o.relocate f) ihl hop hspells ihr
  | tighter hlevel _ ih => exact .tighter hlevel ih
  | @power xs ys o left right _ hpower _ ihl ihr =>
    simpa [Symbol.relocate, Expr.relocate, Span.relocate] using
      Derives.power (o := o.relocate f) ihl hpower ihr
  | base _ ih => exact .base ih
  | unoperated _ ih => exact .unoperated ih
  | @unary xs o e op hspells _ ih =>
    simpa [Symbol.relocate, Expr.relocate, Span.relocate] using Derives.unary
      (o := o.relocate f) hspells ih
  | @updateBefore xs o e op hspells _ ih =>
    rw [Symbol.relocate, Expr.relocate, ← spanOf_relocate f (List.cons_ne_nil o xs)]
    exact .updateBefore (o := o.relocate f) hspells ih
  | notUpdated _ ih => exact .notUpdated ih
  | @updateBehind xs o e op _ hspells ih =>
    simpa [Symbol.relocate, Expr.relocate, Span.relocate] using
      Derives.updateBehind (o := o.relocate f) ih hspells
  | whole _ ih => exact .whole ih
  | @chain xs e h ih =>
    rw [Symbol.relocate, Expr.relocate, ← spanOf_relocate f (h.ne_nil rfl)]
    exact .chain ih
  | bare _ ih => exact .bare ih
  | @named xs l o e cut name _ hdot hname ih =>
    rw [Symbol.relocate, Expr.relocate, ← spanOf_relocate f (by simp), List.map_append]
    exact .named (o := o.relocate f) (l := l.relocate f) ih hdot hname
  | @optionalNamed xs l q e cut name _ hdot hname ih =>
    rw [Symbol.relocate, Expr.relocate, ← spanOf_relocate f (by simp), List.map_append]
    exact .optionalNamed (q := q.relocate f) (l := l.relocate f) ih hdot hname
  | @optionalComputed xs ys o q c e key cut _ hdot hopener _ hcloser ih ihk =>
    rw [Symbol.relocate, Expr.relocate, ← spanOf_relocate f (by simp)]
    simp only [List.map_append, List.map_cons, List.map_nil]
    exact .optionalComputed (o := o.relocate f) (q := q.relocate f)
      (c := c.relocate f) ih hdot hopener ihk hcloser
  | @computed xs ys o c e key cut _ hopener _ hcloser ih ihk =>
    rw [Symbol.relocate, Expr.relocate, ← spanOf_relocate f (by simp)]
    simp only [List.map_append, List.map_cons, List.map_nil]
    exact .computed (o := o.relocate f) (c := c.relocate f) ih hopener ihk hcloser
  | @optionalCall xs ys o q c e cut arguments _ hdot hopener _ hcloser ih iha =>
    rw [Symbol.relocate, Expr.relocate, ← spanOf_relocate f (by simp), Expr.relocateElements_eq]
    simp only [List.map_append, List.map_cons, List.map_nil]
    exact .optionalCall (o := o.relocate f) (q := q.relocate f)
      (c := c.relocate f) ih hdot hopener iha hcloser
  | @call xs ys o c e cut arguments _ hopener _ hcloser ih iha =>
    rw [Symbol.relocate, Expr.relocate, ← spanOf_relocate f (by simp), Expr.relocateElements_eq]
    simp only [List.map_append, List.map_cons, List.map_nil]
    exact .call (o := o.relocate f) (c := c.relocate f) ih hopener iha hcloser
  | @literal l value h => exact .literal (l := l.relocate f) h
  | @identifier l name h => exact .identifier (l := l.relocate f) h
  | @bracketed xs o c e hopener _ hcloser ih =>
    rw [List.map_cons, List.map_append]
    exact .bracketed (o := o.relocate f) (c := c.relocate f) hopener ih hcloser
  | @array xs o c elements hopener _ hcloser ih =>
    rw [List.map_cons, List.map_append, Symbol.relocate, Expr.relocate, Expr.relocateElements_eq]
    exact .array (o := o.relocate f) (c := c.relocate f) hopener ih hcloser
  | @object xs o c members hopener _ hcloser ih =>
    rw [List.map_cons, List.map_append, Symbol.relocate, Expr.relocate, Expr.relocateMembers_eq]
    exact .object (o := o.relocate f) (c := c.relocate f) hopener ih hcloser
  | noElements => exact .noElements
  | lastElement _ ih => exact .lastElement ih
  | @moreElements xs ys c x others _ hcomma _ ih iho =>
    rw [List.map_append, List.map_cons]
    exact .moreElements (c := c.relocate f) ih hcomma iho
  | @spreadElement xs o e hdots _ ih => exact .spreadElement (o := o.relocate f) hdots ih
  | item _ ih => exact .item ih
  | noMembers => exact .noMembers
  | lastMember _ ih => exact .lastMember ih
  | @moreMembers xs ys c m others _ hcomma _ ih iho =>
    rw [List.map_append, List.map_cons]
    exact .moreMembers (c := c.relocate f) ih hcomma iho
  | @spreadMember xs o e hdots _ ih => exact .spreadMember (o := o.relocate f) hdots ih
  | @shorthand l name h => exact .shorthand (l := l.relocate f) h
  | @property xs ys c e key _ hcolon _ ihk ihv =>
    rw [List.map_append, List.map_cons]
    exact .property (c := c.relocate f) ihk hcolon ihv
  | @nameKey l name h => exact .nameKey (l := l.relocate f) h
  | @stringKey l s h => exact .stringKey (l := l.relocate f) h
  | @numberKey l x h => exact .numberKey (l := l.relocate f) h
  | @computedKey xs o c e hopener _ hcloser ih =>
    rw [List.map_cons, List.map_append]
    exact .computedKey (o := o.relocate f) (c := c.relocate f) hopener ih hcloser

end Grammar

end Relocate

end PromptMarkup

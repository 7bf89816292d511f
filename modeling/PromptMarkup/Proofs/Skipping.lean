/-
Parts of expressions that an evaluation may leave out.

* `Expr.mayCut` — an expression inside of which the chain around it may be cut short;
* `Expr.loose`, `Expr.firm` — the parts of an expression that an evaluation may leave out, and the
  others;
* `Expr.Settles` — an expression behind which a name is visible;
* `leading` — the law of every evaluation, that names stay visible;
* `Expr.shows_of_settles` — where an evaluation has succeeded, the names are visible that its
  expression settles.

Design notes: what is left out depends on values; which parts this may happen to is read from the
form of an expression.  A conditional leaves out one of its branches, so that a name is settled
there that both of them settle.
-/
import PromptMarkup.Proofs.Parameters
import PromptMarkup.Proofs.Writing

namespace PromptMarkup

open PromptMarkup.Computation

/-! ### Parts that may be left out -/

namespace Expr

/-- The chain around an expression may be cut short inside of the expression. -/
def mayCut : Expr → Bool
  | member _ owner _ optional => optional || owner.mayCut
  | call _ callee _ optional => optional || callee.mayCut
  | _ => false

/-- The parts of an expression that an evaluation may leave out. -/
def loose : Expr → List Expr
  | logical _ _ _ right => [right]
  | assignment _ (.logical _) _ value => [value]
  | conditional _ _ consequent alternate => [consequent, alternate]
  | member _ owner property optional => if optional || owner.mayCut then property.exprs else []
  | call _ callee arguments optional =>
    if optional || callee.mayCut then arguments.map Element.expr else []
  | _ => []

/-- The parts of an expression that an evaluation comes to unless it fails. -/
def firm : Expr → List Expr
  | logical _ _ left _ => [left]
  | assignment _ (.logical _) target _ => [target]
  | conditional _ test _ _ => [test]
  | member _ owner property optional =>
    if optional || owner.mayCut then [owner] else owner :: property.exprs
  | call _ callee arguments optional =>
    if optional || callee.mayCut then [callee] else callee :: arguments.map Element.expr
  | e => e.parts

/-- A name is visible behind an expression: it is read or written there, in a part that is not left
out, or in both branches of a conditional. -/
inductive Settles (name : String) : Expr → Prop
  | here (s : Span) : Settles name (identifier s name)
  | part {e x : Expr} (hx : x ∈ e.firm) (h : Settles name x) : Settles name e
  | branches (s : Span) (test : Expr) {consequent alternate : Expr} (hc : Settles name consequent)
    (ha : Settles name alternate) : Settles name (conditional s test consequent alternate)

theorem mem_firm_member {s : Span} {owner x : Expr} {property : Property} {optional : Bool}
    (hx : x ∈ (member s owner property optional).firm) :
    x = owner ∨ (optional || owner.mayCut) = false ∧ x ∈ property.exprs := by
  rw [firm] at hx
  split at hx
  · exact .inl (List.mem_singleton.1 hx)
  · next hcut => exact (List.mem_cons.1 hx).imp_right fun hx => ⟨Bool.eq_false_iff.2 hcut, hx⟩

theorem mem_firm_call {s : Span} {callee x : Expr} {arguments : List Element} {optional : Bool}
    (hx : x ∈ (call s callee arguments optional).firm) :
    x = callee ∨ (optional || callee.mayCut) = false ∧ x ∈ arguments.map Element.expr := by
  rw [firm] at hx
  split at hx
  · exact .inl (List.mem_singleton.1 hx)
  · next hcut => exact (List.mem_cons.1 hx).imp_right fun hx => ⟨Bool.eq_false_iff.2 hcut, hx⟩

/-! ### Chains that are cut short -/

open Evaluation

variable {host : Host}

/-- A computation that does not end with a chain that was cut short. -/
def Uncut (y : Evaluation (Option Value)) : Prop :=
  ∀ s t, runFrom s y ≠ (.ok none, t)

theorem Uncut.bind {α : Type} {y : Evaluation α} {f : α → Evaluation (Option Value)}
    (h : ∀ a, Uncut (f a)) :
    Uncut (y >>= f) := by
  intro s u hu
  obtain ⟨a, t, -, hu⟩ := runFrom_bind_eq_ok hu
  exact h a t u hu

theorem uncut_some (v : Value) : Uncut (pure (some v)) :=
  fun _ _ h => nomatch (Prod.mk.inj h).1

theorem uncut_fail (fault : Fault) (span : Span) : Uncut (Evaluation.fail fault span) :=
  fun _ _ h => nomatch (Prod.mk.inj h).1

theorem uncut_member {s : Span} {owner : Expr} {property : Property}
    (h : Uncut (links host owner)) :
    Uncut (links host (member s owner property false)) := by
  intro s u hu
  obtain ⟨o, t, ht, hu⟩ := runFrom_bind_eq_ok hu
  cases o with
  | none => exact h s t ht
  | some v => exact (Uncut.bind fun _ => Uncut.bind fun _ => uncut_some _) t u hu

theorem uncut_call {s : Span} {callee : Expr} {arguments : List Element}
    (h : Uncut (links host callee)) :
    Uncut (links host (call s callee arguments false)) := by
  intro s u hu
  obtain ⟨o, t, ht, hu⟩ := runFrom_bind_eq_ok hu
  cases o with
  | none => exact h s t ht
  | some v => exact (Uncut.bind fun _ => Uncut.bind fun _ => uncut_some _) t u hu

/-- A chain is cut short only at its links. -/
theorem uncut_links {e : Expr} (h : e.mayCut = false) : Uncut (links host e) := by
  induction e using Expr.induct with
  | step e ih =>
    cases e with
    | literal s l => exact uncut_some _
    | identifier s name => exact .bind fun _ => uncut_some _
    | array s elements => exact .bind fun _ => uncut_some _
    | object s members => exact .bind fun _ => uncut_some _
    | sequence s es => exact .bind fun _ => uncut_some _
    | binary s op left right =>
      unfold links
      split
      · exact uncut_fail _ _
      · exact .bind fun _ => .bind fun _ => .bind fun _ => uncut_some _
    | logical s op left right =>
      -- the left side may decide alone, and either way there is a value
      refine .bind fun v => ?_
      dsimp only
      split
      · exact uncut_some _
      · exact .bind fun _ => uncut_some _
    | unary s op argument =>
      unfold links
      split
      · exact uncut_fail _ _
      · exact .bind fun _ => .bind fun _ => uncut_some _
    | update s op leading argument =>
      refine .bind fun v => ?_
      split
      · exact .bind fun _ => .bind fun _ => uncut_some _
      · exact uncut_fail _ _
    | assignment s op target value =>
      cases op with
      | assign =>
        cases target with
        | identifier t name => exact .bind fun _ => .bind fun _ => uncut_some _
        | _ => exact .bind fun _ => .bind fun _ => .bind fun _ => uncut_some _
      | binary op hop =>
        exact .bind fun _ => .bind fun _ => .bind fun _ => .bind fun _ => .bind fun _ =>
          .bind fun _ =>
          uncut_some _
      | logical op =>
        refine .bind fun _ => .bind fun _ => .bind fun old => ?_
        dsimp only
        split
        · exact uncut_some _
        · exact .bind fun _ => .bind fun _ => uncut_some _
    | conditional s test consequent alternate =>
      refine .bind fun v => ?_
      split
      · exact .bind fun _ => uncut_some _
      · exact .bind fun _ => uncut_some _
    | member s owner property optional =>
      -- without an optional link, only a cut in the owner could cut the chain
      obtain ⟨rfl, howner⟩ := Bool.or_eq_false_iff.1 h
      exact uncut_member (ih owner List.mem_cons_self howner)
    | call s callee arguments optional =>
      obtain ⟨rfl, hcallee⟩ := Bool.or_eq_false_iff.1 h
      exact uncut_call (ih callee List.mem_cons_self hcallee)
    | chain s inner => exact .bind fun _ => uncut_some _

end Expr

/-! ### Names that stay visible -/

/-- The law of every evaluation, that slots are only added and names keep theirs. -/
def leading : Law Problem Scope where
  done := Scope.Leads
  stop s _ t := s.Leads t
  refl := Scope.Leads.refl
  trans := Scope.Leads.trans
  back := Scope.Leads.trans

theorem Scope.Leads.sees {s t : Scope} (h : s.Leads t) {name : String} (hs : s.sees name = true) :
    t.sees name = true := by
  obtain ⟨slot, hslot⟩ := Option.isSome_iff_exists.1 hs
  exact Option.isSome_iff_exists.2 ⟨slot, h.keeps name slot hslot⟩

theorem admits_leading (names : List String) : Evaluation.Admits leading names where
  fails s _ := .refl s
  counts _ := ⟨Nat.le_refl _, fun h => h, .refl _⟩
  writes s name _ v := s.leads_set name v

namespace Expr

open Evaluation

theorem leads_links (host : Host) (e : Expr) :
    Respects leading (links host e) ∧ Respects leading (targetPath host e) :=
  (admits_leading e.names).links host e (List.Subset.refl _)

/-! ### Names that are visible behind an expression -/

/-- Wherever an evaluation has succeeded, a name is visible. -/
def Shows (name : String) {α : Type} (y : Evaluation α) : Prop :=
  ∀ s a t, runFrom s y = (.ok a, t) → t.sees name = true

section Shows

variable {α β : Type} {name : String} {y : Evaluation α} {f : α → Evaluation β}

theorem Shows.front (h : Shows name y) (hf : ∀ a, Respects leading (f a)) :
    Shows name (y >>= f) := by
  intro s b u hu
  obtain ⟨a, t, ht, hu⟩ := runFrom_bind_eq_ok hu
  exact ((hf a t).done hu).sees (h s a t ht)

theorem Shows.back (hf : ∀ a, Shows name (f a)) : Shows name (y >>= f) := by
  intro s b u hu
  obtain ⟨a, t, -, hu⟩ := runFrom_bind_eq_ok hu
  exact hf a t b u hu

theorem shows_fail (fault : Fault) (span : Span) :
    Shows name (Evaluation.fail fault span : Evaluation α) :=
  fun _ _ _ h => nomatch (Prod.mk.inj h).1

theorem leads_ofResult (span : Span) (x : Except Fault α) : Respects leading (ofResult span x) :=
  (admits_leading []).ofResult span x

theorem leads_writePath (name : String) (keys : List String) (v : Value) (span : Span) :
    Respects leading (writePath name keys v span) :=
  (admits_leading [name]).writePath List.mem_cons_self keys v span

theorem leads_items (host : Host) (es : List Element) : Respects leading (items host es) :=
  (admits_leading []).items fun x _ => (leads_links host x).1

theorem leads_fields (host : Host) (before : Fields Value) (ms : List Member) :
    Respects leading (fields host before ms) :=
  (admits_leading []).fields (fun x _ => (leads_links host x).1) before

theorem leads_inOrder (host : Host) (last : Value) (es : List Expr) :
    Respects leading (inOrder host last es) :=
  Admits.inOrder (fun x _ => (leads_links host x).1) last

theorem leads_propertyKey (host : Host) (p : Property) : Respects leading (propertyKey host p) :=
  Admits.propertyKey fun x _ => (leads_links host x).1

theorem shows_readVariable (name : String) (span : Span) : Shows name (readVariable name span) := by
  intro s v t ht
  obtain ⟨hget, rfl⟩ := runFrom_readVariable_eq_ok ht
  exact Scope.sees_of_get? hget

theorem shows_targetName (span : Span) : Shows name (targetPath host (identifier span name)) := by
  intro s place t ht
  rw [targetPath, runFrom_bind_ok (runFrom_look s _)] at ht
  split at ht
  · next hsees =>
    obtain rfl : s = t := (Prod.mk.inj ht).2
    exact hsees
  · cases (Prod.mk.inj ht).1

theorem shows_items {es : List Element} {x : Expr} (hx : x ∈ es.map Element.expr)
    (h : Shows name (links host x)) :
    Shows name (items host es) := by
  induction es with
  | nil => exact nomatch hx
  | cons e rest ih =>
    rcases List.mem_cons.1 hx with rfl | hx
    · cases e with
      | item e => exact h.front fun v => (leads_items host rest).bind fun vs => Respects.pure _
      | spread e =>
        exact h.front fun v => (leads_ofResult _ _).bind fun ws =>
          (leads_items host rest).bind fun vs => Respects.pure _
    · have hrest : Shows name (items host rest) := ih hx
      cases e with
      | item e => exact .back fun v => hrest.front fun vs => Respects.pure _
      | spread e => exact .back fun v => .back fun ws => hrest.front fun vs => Respects.pure _

theorem shows_propertyKey {p : Property} {x : Expr} (hx : x ∈ p.exprs)
    (h : Shows name (links host x)) :
    Shows name (propertyKey host p) := by
  cases p with
  | named key => exact nomatch hx
  | computed e =>
    obtain rfl := List.mem_singleton.1 hx
    exact h.front fun v => Respects.pure _

theorem shows_fields {ms : List Member} {x : Expr} (hx : x ∈ ms.flatMap Member.exprs)
    (h : Shows name (links host x)) (before : Fields Value) :
    Shows name (fields host before ms) := by
  induction ms generalizing before with
  | nil => exact nomatch hx
  | cons m rest ih =>
    -- `x` is evaluated in this member, with the rest behind it, or in one of the later ones
    rcases List.mem_append.1 hx with hx | hx
    · cases m with
      | property key value =>
        rcases List.mem_append.1 hx with hx | hx
        · cases key with
          | fixed k => exact nomatch hx
          | computed e =>
            obtain rfl := List.mem_singleton.1 hx
            exact (h.front fun v => leads_ofResult _ _).front fun k =>
              (leads_links host value).1.bind fun v => leads_fields host _ rest
        · obtain rfl := List.mem_singleton.1 hx
          exact .back fun k => h.front fun v => leads_fields host _ rest
      | spread e =>
        obtain rfl := List.mem_singleton.1 hx
        exact h.front fun v => (leads_ofResult _ _).bind fun more => leads_fields host _ rest
    · have hrest : ∀ before, Shows name (fields host before rest) := ih hx
      cases m with
      | property key value => exact .back fun k => .back fun v => hrest _
      | spread e => exact .back fun v => .back fun more => hrest _

theorem shows_inOrder {es : List Expr} {x : Expr} (hx : x ∈ es) (h : Shows name (links host x))
    (last : Value) :
    Shows name (inOrder host last es) := by
  induction es generalizing last with
  | nil => exact nomatch hx
  | cons e rest ih =>
    rcases List.mem_cons.1 hx with rfl | hx
    · exact h.front fun v => leads_inOrder host _ rest
    · exact .back fun v => ih hx _

/-- A name is visible behind a link if it is behind the expression in front, or behind what no cut
leaves out. -/
theorem shows_link {owner : Expr} {optional : Bool} {rest : Value → Evaluation (Option Value)}
    (hrest : ∀ v, Respects leading (rest v))
    (h : Shows name (links host owner) ∨
      (optional || owner.mayCut) = false ∧ ∀ v, Shows name (rest v)) :
    Shows name (links host owner >>= fun o =>
      match o with
      | none => pure none
      | some v => if optional && v.isNullish then pure none else rest v) := by
  rcases h with h | ⟨hcut, h⟩
  -- the name shows in the owner, whatever the link does behind it
  · refine h.front fun o => ?_
    cases o with
    | none => exact Respects.pure none
    | some v =>
      dsimp only
      split
      · exact Respects.pure none
      · exact hrest v
  -- the name shows behind the owner, which cannot be cut here
  · obtain ⟨rfl, howner⟩ := Bool.or_eq_false_iff.1 hcut
    intro s b u hu
    obtain ⟨o, t, ht, hu⟩ := runFrom_bind_eq_ok hu
    cases o with
    | none => exact absurd ht (uncut_links howner s t)
    | some v => exact h v t b u hu

/-- A name is visible behind an assignment if it is behind its target, or behind its value unless
that may be left out. -/
theorem shows_assignment {s : Span} {op : AssignOp} {target value x : Expr}
    (hx : x ∈ (assignment s op target value).firm) (h : Settles name x)
    (hvalue : Shows name (links host x)) (htarget : Shows name (targetPath host x)) :
    Shows name (links host (assignment s op target value)) := by
  have hwrite : ∀ name keys v, Respects leading (do
      writePath name keys v target.span
      return some v : Evaluation (Option Value)) := fun name keys v =>
    (leads_writePath name keys v _).bind fun _ => Respects.pure _
  have hlinks : Respects leading (links host value) := (leads_links host value).1
  have hread : ∀ keys v, Respects leading (readPath target.span keys v) := fun keys v =>
    (admits_leading []).readPath target.span keys v
  cases op with
  | assign =>
    rcases List.mem_cons.1 hx with rfl | hx
    · cases x with
      | identifier t other =>
        -- the target of a declaration is not evaluated, but written to
        obtain rfl : name = other := by
          cases h with
          | here => rfl
          | part hx _ => exact nomatch hx
        refine .back fun v => .front (fun s a u hu => ?_) fun _ => Respects.pure _
        obtain rfl := (Prod.mk.inj hu).2
        rw [Scope.sees_set, beq_self_eq_true, Bool.or_true]
      | _ => exact htarget.front fun place => hlinks.bind fun v => hwrite place.1 place.2 _
    · obtain rfl := List.mem_singleton.1 hx
      cases target with
      | identifier t other =>
        exact hvalue.front fun v => Respects.bind (.modify fun s => s.leads_set other _) fun _ =>
          Respects.pure _
      | _ => exact .back fun place => hvalue.front fun v => hwrite place.1 place.2 _
  | binary op hop =>
    rcases List.mem_cons.1 hx with rfl | hx
    · exact htarget.front fun place => Respects.bind (.look _) fun v => (hread _ v).bind fun old =>
        hlinks.bind fun right => (leads_ofResult _ _).bind fun v => hwrite place.1 place.2 v
    · obtain rfl := List.mem_singleton.1 hx
      exact .back fun place => .back fun v => .back fun old => hvalue.front fun right =>
        (leads_ofResult _ _).bind fun v => hwrite place.1 place.2 v
  | logical op =>
    obtain rfl := List.mem_singleton.1 hx
    refine htarget.front fun place => Respects.bind (.look _) fun v =>
      (hread _ v).bind fun old => ?_
    dsimp only
    split
    · exact Respects.pure _
    · exact hlinks.bind fun v => hwrite place.1 place.2 _

end Shows

/-- Where an expression was evaluated, or a target was found, the names are visible that it settles.
-/
theorem shows_of_settles {name : String} (host : Host) {e : Expr} (h : Settles name e) :
    Shows name (links host e) ∧ Shows name (targetPath host e) := by
  -- the induction is on where the name stands: here, in a part, or in both branches
  induction h with
  | here s =>
    constructor
    · exact .front (shows_readVariable name s) fun v => Respects.pure _
    · exact shows_targetName s
  | @part e x hx h ih =>
    have hl : ∀ y, Respects leading (links host y) := fun y => (leads_links host y).1
    obtain ⟨ihl, iht⟩ := ih
    constructor
    · cases e with
      | literal s l => exact nomatch hx
      | identifier s name => exact nomatch hx
      | array s elements => exact (shows_items hx ihl).front fun _ => Respects.pure _
      | object s members => exact (shows_fields hx ihl _).front fun _ => Respects.pure _
      | sequence s es => exact (shows_inOrder hx ihl _).front fun _ => Respects.pure _
      | binary s op left right =>
        unfold links
        split
        · exact shows_fail _ _
        · rcases List.mem_cons.1 hx with rfl | hx
          · exact ihl.front fun a => (hl right).bind fun b => (leads_ofResult _ _).bind fun _ =>
              Respects.pure _
          · obtain rfl := List.mem_singleton.1 hx
            exact .back fun a => ihl.front fun b => (leads_ofResult _ _).bind fun _ =>
              Respects.pure _
      | logical s op left right =>
        obtain rfl := List.mem_singleton.1 hx
        -- only the left side is sure to be evaluated
        refine ihl.front fun a => ?_
        dsimp only
        split
        · exact Respects.pure _
        · exact (hl right).bind fun _ => Respects.pure _
      | unary s op argument =>
        obtain rfl := List.mem_singleton.1 hx
        unfold links
        split
        · exact shows_fail _ _
        · exact ihl.front fun v => (leads_ofResult _ _).bind fun _ => Respects.pure _
      | update s op leading argument =>
        obtain rfl := List.mem_singleton.1 hx
        refine ihl.front fun v => ?_
        split
        · exact (leads_links host x).2.bind fun place =>
            (leads_writePath place.1 place.2 _ _).bind fun _ =>
            Respects.pure _
        · exact (admits_leading []).fail _ _
      | assignment s op target value => exact shows_assignment hx h ihl iht
      | conditional s test consequent alternate =>
        obtain rfl := List.mem_singleton.1 hx
        -- only the test is sure to be evaluated
        refine ihl.front fun v => ?_
        split
        · exact (hl consequent).bind fun _ => Respects.pure _
        · exact (hl alternate).bind fun _ => Respects.pure _
      | member s owner property optional =>
        refine shows_link (fun v => (leads_propertyKey host property).bind fun key =>
          ((admits_leading []).readProperty v key s).bind fun _ => Respects.pure _) ?_
        rcases mem_firm_member hx with rfl | ⟨hcut, hx⟩
        · exact .inl ihl
        · exact .inr ⟨hcut, fun v => (shows_propertyKey hx ihl).front fun key =>
            ((admits_leading []).readProperty v key s).bind fun _ => Respects.pure _⟩
      | call s callee arguments optional =>
        refine shows_link (fun f => (leads_items host arguments).bind fun args =>
          ((admits_leading []).callFunction host callee s f args).bind fun _ => Respects.pure _) ?_
        rcases mem_firm_call hx with rfl | ⟨hcut, hx⟩
        · exact .inl ihl
        · exact .inr ⟨hcut, fun f => (shows_items hx ihl).front fun args =>
            ((admits_leading []).callFunction host callee s f args).bind fun _ => Respects.pure _⟩
      | chain s inner =>
        obtain rfl := List.mem_singleton.1 hx
        exact ihl.front fun _ => Respects.pure _
    -- as a target, where only names and plain members have a place
    · cases e with
      | identifier s name => exact nomatch hx
      | member s owner property optional =>
        cases optional with
        | true => exact shows_fail _ _
        | false =>
          rcases mem_firm_member hx with rfl | ⟨-, hx⟩
          · exact iht.front fun place => (leads_propertyKey host property).bind fun key =>
              Respects.pure _
          · exact .back fun place => (shows_propertyKey hx ihl).front fun key => Respects.pure _
      | _ => exact shows_fail _ _
  | branches s test hc ha ihc iha =>
    constructor
    -- whichever branch is taken, the name shows in it
    · refine .back fun v => ?_
      split
      · exact ihc.1.front fun _ => Respects.pure _
      · exact iha.1.front fun _ => Respects.pure _
    · exact shows_fail _ _

end Expr

end PromptMarkup

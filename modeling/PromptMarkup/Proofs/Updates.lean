/-
Updates and compound assignments.

* `Expr.IsPath` — a variable, or a part of a variable, that is not reached through a chain;
* `Expr.SteadyIn` — a key that may be evaluated again: it has the same text, and nothing was
  written;
* `Expr.place_of_value` — a path with such keys is the same place whenever it is evaluated;
* `Expr.update_eq_assignment` — `++` and `--` in front of such a path do what `+= 1` and `-= 1` do,
  and behind it they leave the same variables.

Design notes: an update evaluates its target as a value and then again as a place, an assignment
only as a place.  What is looked up on the way to a value may be a function, which has another
identity each time; `Value.Like` leaves the identity out, so that a number that was found in one way
is found in the other.
-/
import PromptMarkup.Proofs.Calls
import PromptMarkup.Proofs.Parts
import PromptMarkup.Proofs.Renaming

namespace PromptMarkup

open PromptMarkup.Computation Evaluation

/-! ### Lookups -/

namespace Value

/-- Two values that are the same, but for the identity of a function. -/
inductive Like : Value → Value → Prop
  | same (v : Value) : Like v v
  | functions (i j : Identity) (f g : Callable) : Like (function i f) (function j g)

/-- What is found under a key is the same for all identities, or it is a method with the identity.
-/
theorem property_cases (v : Value) (key : String) :
    (∃ result, ∀ i, v.property i key = result) ∨ ∃ f, ∀ i, v.property i key = .ok
    (function i f) := by
  -- a method is looked up by its name, and only what it is called on carries the span
  have hmethod : ∀ meaning : Option Callable,
      (∃ result : Except Fault Value, ∀ i, .ok (method i meaning) = result) ∨
        ∃ f, ∀ i, (.ok (method i meaning) : Except Fault Value) = .ok (function i f) := by
    intro meaning
    cases meaning with
    | none => exact .inl ⟨.ok undefined, fun _ => rfl⟩
    | some f => exact .inr ⟨f, fun _ => rfl⟩
  cases v with
  | array items =>
    simp only [property]
    split
    · exact .inl ⟨_, fun _ => rfl⟩
    · split
      · exact .inl ⟨_, fun _ => rfl⟩
      · exact hmethod _
  | string s =>
    simp only [property]
    split
    · exact .inl ⟨_, fun _ => rfl⟩
    · split
      · exact .inl ⟨_, fun _ => rfl⟩
      · exact hmethod _
  | _ => exact .inl ⟨_, fun _ => rfl⟩

/-- The parts of values that are alike are alike, whatever identities methods get. -/
theorem Like.property {v w part : Value} {i : Identity} {key : String} (h : Like v w)
    (hpart : v.property i key = .ok part) (j : Identity) :
    ∃ part', w.property j key = .ok part' ∧ Like part part' := by
  cases h with
  | functions i' j' f g => exact ⟨part, hpart, .same part⟩
  | same =>
    rcases v.property_cases key with ⟨result, hresult⟩ | ⟨f, hf⟩
    · exact ⟨part, by rw [hresult, ← hresult i, hpart], .same part⟩
    · obtain rfl := Except.ok.inj ((hf i).symm.trans hpart)
      exact ⟨_, hf j, .functions i j f f⟩

/-- What is found under keys, the outermost first, when methods on the way may have any identities.
-/
inductive Reaches (root : Value) : List String → Value → Prop
  | root : Reaches root [] root
  | key {keys : List String} {v part : Value} {i : Identity} {key : String}
    (h : Reaches root keys v)
    (hpart : v.property i key = .ok part) : Reaches root (keys ++ [key]) part

theorem part_append (v : Value) (made : Nat) (keys : List String) (key : String) :
    v.part made (keys ++ [key]) =
      (v.part made keys).bind fun w => w.property (.made (made + keys.length)) key := by
  induction keys generalizing v made with
  | nil =>
    show (v.property (.made made) key).bind Except.ok = v.property (.made (made + 0)) key
    cases v.property (.made made) key <;> rfl
  | cons first keys ih =>
    show (v.property (.made made) first).bind (fun w => w.part (made + 1) (keys ++ [key])) =
      ((v.property (.made made) first).bind fun w => w.part (made + 1) keys).bind _
    cases v.property (.made made) first with
    | error fault => rfl
    | ok w =>
      show w.part (made + 1) (keys ++ [key]) = _
      rw [ih, List.length_cons, Nat.add_right_comm, Nat.add_assoc]
      rfl

/-- The part under the keys is found again, up to the identity of a method. -/
theorem Reaches.part {root v : Value} {keys : List String} (h : Reaches root keys v) (made : Nat) :
    ∃ w, root.part made keys = .ok w ∧ Like v w := by
  induction h with
  | root => exact ⟨root, rfl, .same root⟩
  | key h hpart ih =>
    obtain ⟨w, hw, hlike⟩ := ih
    obtain ⟨part', hpart', hlike'⟩ := hlike.property hpart (.made (made + _))
    refine ⟨part', ?_, hlike'⟩
    rw [part_append, hw]
    exact hpart'

/-- A number is found again. -/
theorem Reaches.number {root : Value} {x : Float} {keys : List String}
    (h : Reaches root keys (number x)) (made : Nat) :
    root.part made keys = .ok (.number x) := by
  obtain ⟨w, hw, hlike⟩ := h.part made
  cases hlike with
  | same => exact hw

end Value

/-! ### Paths -/

theorem Scope.Agrees.symm {s t : Scope} (h : s.Agrees t) : t.Agrees s :=
  ⟨h.slots.symm, h.pointers.symm⟩

theorem Scope.Agrees.get? {s t : Scope} (h : s.Agrees t) (name : String) :
    s.get? name = t.get? name := by
  rw [Scope.get?, Scope.get?, h.slots, h.pointers]

theorem Scope.Agrees.sees {s t : Scope} (h : s.Agrees t) (name : String) :
    s.sees name = t.sees name := by
  rw [Scope.sees, Scope.sees, h.pointers]

/-- The bindings of a scope again, perhaps after more lookups. -/
structure Scope.Again (s t : Scope) : Prop where
  agrees : t.Agrees s
  lookups : s.stash.lookups ≤ t.stash.lookups

theorem Scope.Again.refl (s : Scope) : s.Again s :=
  ⟨.refl s, Nat.le_refl _⟩

/-- The law that lookups are only added. -/
def counting : Law Problem Scope where
  done s t := s.stash.lookups ≤ t.stash.lookups
  stop s _ t := s.stash.lookups ≤ t.stash.lookups
  refl _ := Nat.le_refl _
  trans h h' := Nat.le_trans h h'
  back h h' := Nat.le_trans h h'

theorem admits_counting (names : List String) : Admits counting names where
  fails s _ := Nat.le_refl s.stash.lookups
  counts s := Nat.le_succ s.stash.lookups
  writes s name _ v := Nat.le_of_eq (s.lookups_set name v).symm

theorem counting.le {α : Type} {y : Evaluation α} (h : Respects counting y) (s : Scope) :
    s.stash.lookups ≤ (runFrom s y).2.stash.lookups := by
  rcases hrun : runFrom s y with ⟨p | a, t⟩
  · exact (h s).stop hrun
  · exact (h s).done hrun

namespace Expr

/-- A variable, or a part of a variable that is not reached through a chain. -/
def IsPath : Expr → Prop
  | identifier _ _ => True
  | member _ owner _ false => owner.IsPath
  | _ => False

/-- The keys of a path. -/
def pathKeys : Expr → List Property
  | member _ owner property false => owner.pathKeys ++ [property]
  | _ => []

/-- A key that may be evaluated again, where the variables are those of a scope: it ends alike, and
writes nothing. -/
def SteadyIn (host : Host) (s : Scope) (p : Property) : Prop :=
  ∀ t u, s.Again t → s.Again u →
    (runFrom t (propertyKey host p)).1 = (runFrom u (propertyKey host p)).1 ∧
      (runFrom t (propertyKey host p)).2.Agrees s

theorem SteadyIn.again {host : Host} {s t : Scope} {p : Property} (h : SteadyIn host s p)
    (ht : s.Again t) :
    s.Again (runFrom t (propertyKey host p)).2 := by
  refine ⟨(h t t ht ht).2,
    Nat.le_trans ht.lookups (counting.le (Admits.propertyKey fun e _ => ?_) t)⟩
  exact ((admits_counting e.names).links host e (List.Subset.refl _)).1

/-- A path with such keys that has a value is the same place whenever it is evaluated, and there the
value is found again. -/
theorem place_of_value {host : Host} {s t t' : Scope} {target : Expr} {o : Option Value}
    (hpath : target.IsPath) (hkeys : ∀ p ∈ target.pathKeys, SteadyIn host s p) (ht : s.Again t)
    (h : runFrom t (links host target) = (.ok o, t')) :
    s.Again t' ∧ ∃ name keys root v, o = some v ∧ s.get? name = some root ∧ root.Reaches keys v ∧
      ∀ u, s.Again u → ∃ u', runFrom u (targetPath host target) = (.ok (name, keys), u') ∧
      s.Again u' := by
  -- on the path: the owner's place is found first, then its key once more
  induction target using Expr.induct generalizing t t' o with
  | step e ih =>
    cases e with
    | identifier span name =>
      obtain ⟨v, t1, hv, h⟩ := runFrom_bind_eq_ok h
      obtain ⟨rfl, rfl⟩ : some v = o ∧ t1 = t' := by simpa using h
      obtain ⟨hget, rfl⟩ := runFrom_readVariable_eq_ok hv
      have hs : s.get? name = some v := (ht.agrees.get? name).symm.trans hget
      refine ⟨ht, name, [], v, v, rfl, hs, .root, fun u hu => ⟨u, ?_, hu⟩⟩
      have hsees : u.sees name = true := (hu.agrees.sees name).trans (Scope.sees_of_get? hs)
      rw [targetPath, runFrom_bind_ok (runFrom_look u _), if_pos hsees]
      rfl
    | member span owner property optional =>
      cases optional with
      | true => exact hpath.elim
      | false =>
        obtain ⟨o1, t1, h1, h⟩ := runFrom_bind_eq_ok h
        obtain ⟨ht1, name, keys, root, v, rfl, hget, hreaches, hplace⟩ :=
          ih owner List.mem_cons_self hpath (fun p hp => hkeys p (List.mem_append_left _ hp)) ht h1
        obtain ⟨key, t2, hkey, h⟩ := runFrom_bind_eq_ok h
        obtain ⟨part, t3, hpart, h⟩ := runFrom_bind_eq_ok h
        obtain ⟨rfl, rfl⟩ : some part = o ∧ t3 = t' := by simpa using h
        obtain ⟨hproperty, rfl⟩ := runFrom_readProperty_eq_ok hpart
        have hsteady : SteadyIn host s property :=
          hkeys property (List.mem_append_right _ List.mem_cons_self)
        have ht2 : s.Again t2 := by
          have h2 := hsteady.again ht1
          rwa [hkey] at h2
        -- reading the property counts one lookup and changes nothing else
        have ht3 : s.Again { t2 with stash.lookups := t2.stash.lookups + 1 } :=
          ⟨⟨ht2.agrees.slots, ht2.agrees.pointers⟩, Nat.le_succ_of_le ht2.lookups⟩
        refine ⟨ht3, name, keys ++ [key], root, part, rfl, hget, hreaches.key hproperty, ?_⟩
        intro u hu
        obtain ⟨u1, hu1, hagain⟩ := hplace u hu
        -- a steady key computes the same text from a scope that agrees
        have hsame := (hsteady t1 u1 ht1 hagain).1
        rw [hkey] at hsame
        refine ⟨(runFrom u1 (propertyKey host property)).2, ?_, hsteady.again hagain⟩
        rw [targetPath, runFrom_bind_ok hu1, runFrom_bind,
          ← Prod.eta (runFrom u1 (propertyKey host property)), ← hsame]
        rfl
    | _ => exact hpath.elim

/-! ### Updates -/

end Expr

/-- The assignment that an update is short for. -/
def UpdateOp.assignment : UpdateOp → AssignOp
  | .increment => .binary .add (Eq.refl true)
  | .decrement => .binary .subtract (Eq.refl true)

/-- Writing ends alike in scopes with the same bindings. -/
theorem Evaluation.uniform_writePath_agrees (name : String) (keys : List String) (v : Value)
    (span : Span) :
    Uniform Scope.Agrees (writePath name keys v span) := by
  intro s t h
  have hs := runIn_writePath s name keys v span
  have ht := runIn_writePath t name keys v span
  rw [← h.get? name] at ht
  unfold runIn at hs ht
  rw [hs, ht]
  cases ((s.get? name).getD .undefined).write keys v with
  | error fault => exact ⟨rfl, h⟩
  | ok w => exact ⟨rfl, h.set name w⟩

/-- Looking up changes no binding. -/
theorem Evaluation.agrees_readPath {s t : Scope} {span : Span} {keys : List String} {v : Value}
    {result : Except Problem Value} (h : runFrom s (readPath span keys v) = (result, t)) :
    t.Agrees s := by
  have hadmits : Admits (writing []) [] := admits_writing []
  have hwrote : Scope.Wrote [] s t := by
    have hread := hadmits.readPath span keys v s
    cases result with
    | error p => exact hread.stop h
    | ok w => exact hread.done h
  obtain ⟨writes, hnames, hagrees⟩ := hwrote
  cases writes with
  | nil => exact hagrees.symm
  | cons w rest => exact nomatch hnames w List.mem_cons_self

namespace Expr

/-- Writes a number into a part of a variable, and has a number. -/
def writeNumber (name : String) (keys : List String) (new result : Float) (span : Span) :
    Evaluation Value := do
  writePath name keys (.number new) span
  return .number result

variable {host : Host} {s : Scope} {target : Expr} {x : Float}

/-- The end of an update and of an assignment. -/
theorem runFrom_writeNumber (u : Scope) (name : String) (keys : List String) (new result : Float)
    (span : Span) :
    runFrom u (orUndefined <$> (do
      writePath name keys (.number new) span
      return some (.number result) : Evaluation (Option Value))) =
        runFrom u (writeNumber name keys new result span) := by
  rw [runFrom_map, writeNumber, runFrom_bind, runFrom_bind]
  rcases runFrom u (writePath name keys (.number new) span) with ⟨p | ⟨⟩, t⟩
  · rfl
  · rfl

theorem uniform_writeNumber (name : String) (keys : List String) (new result : Float)
    (span : Span) :
    Uniform Scope.Agrees (writeNumber name keys new result span) :=
  (uniform_writePath_agrees name keys (.number new) span).bind fun _ => Uniform.pure _

/-- Which number the result is does not matter for what is written. -/
theorem runFrom_writeNumber_result (u : Scope) (name : String) (keys : List String)
    (new result result' : Float)
    (span : Span) : runFrom u (writeNumber name keys new result' span) =
      ((runFrom u (writeNumber name keys new result span)).1.map fun _ => .number result',
        (runFrom u (writeNumber name keys new result span)).2) := by
  rw [writeNumber, writeNumber, runFrom_bind, runFrom_bind]
  rcases runFrom u (writePath name keys (.number new) span) with ⟨p | ⟨⟩, t⟩
  · rfl
  · rfl

/-- An update of a path with steady keys writes to a place, in a scope with the same bindings, and
so does the assignment. -/
theorem runIn_update (hpath : target.IsPath) (hkeys : ∀ p ∈ target.pathKeys, SteadyIn host s p)
    (hnumber : (runIn s (target.evaluate host)).1 = .ok (.number x)) :
    ∃ name keys,
      (∀ op leading span, ∃ u, u.Agrees s ∧
        runIn s ((update span op leading target).evaluate host) =
          runFrom u (writeNumber name keys (op.apply x)
            (if leading then op.apply x else x) target.span)) ∧
      ∀ (op : UpdateOp) span literalSpan, ∃ u, u.Agrees s ∧
        runIn s ((assignment span op.assignment target (literal literalSpan (.number 1))).evaluate
          host) =
            runFrom u (writeNumber name keys (op.apply x) (op.apply x) target.span) := by
  rw [runIn, evaluate, runFrom_map] at hnumber
  rcases hlinks : runFrom s (links host target) with ⟨p | o, t⟩
  · rw [hlinks] at hnumber
    cases hnumber
  · rw [hlinks] at hnumber
    obtain ⟨ht, name, keys, root, v, rfl, hget, hreaches, hplace⟩ :=
      place_of_value hpath hkeys (.refl s) hlinks
    obtain rfl : v = .number x := Except.ok.inj hnumber
    refine ⟨name, keys, fun op leading span => ?_, fun op span literalSpan => ?_⟩
    · -- the target as a value, and then as a place
      obtain ⟨u, hu, hagain⟩ := hplace t ht
      refine ⟨u, hagain.agrees, ?_⟩
      rw [← runFrom_writeNumber, runIn, evaluate, runFrom_map, runFrom_map, links,
        runFrom_bind_ok hlinks]
      show Prod.mk ((runFrom t (targetPath host target >>= _)).1.map _)
        (runFrom t (targetPath host target >>= _)).2 = _
      rw [runFrom_bind_ok hu]
    · obtain ⟨u, hu, hagain⟩ := hplace s (.refl s)
      have hvalue : runFrom u (valueOf name) = (.ok root, u) := by
        rw [valueOf, runFrom_look, hagain.agrees.get?, hget]
        rfl
      have hread : runFrom u (readPath target.span keys root) =
          (.ok (.number x), (runFrom u (readPath target.span keys root)).2) := by
        have hfst := fst_readPath u target.span keys root
        rw [hreaches.number] at hfst
        exact Prod.ext hfst rfl
      have hcompound :
        runFrom s
        (links host (assignment span op.assignment target (literal literalSpan (.number 1)))) =
          runFrom (runFrom u (readPath target.span keys root)).2 (do
            writePath name keys (.number (op.apply x)) target.span
            return some (.number (op.apply x)) : Evaluation (Option Value)) := by
        cases op with
        | increment =>
          exact (runFrom_bind_ok hu _).trans
            ((runFrom_bind_ok hvalue _).trans (runFrom_bind_ok hread _))
        | decrement =>
          exact (runFrom_bind_ok hu _).trans
            ((runFrom_bind_ok hvalue _).trans (runFrom_bind_ok hread _))
      refine ⟨_, (agrees_readPath hread).trans hagain.agrees, ?_⟩
      rw [← runFrom_writeNumber, runIn, evaluate, runFrom_map, runFrom_map, hcompound]

/-- An update and the assignment it is short for have the same result and leave the same bindings,
if the target is a path whose keys may be evaluated again and that has a number; behind its target
the update leaves them too, and has the number from before. -/
theorem update_eq_assignment (hpath : target.IsPath)
    (hkeys : ∀ p ∈ target.pathKeys, SteadyIn host s p)
    (hnumber : (runIn s (target.evaluate host)).1 = .ok (.number x)) (op : UpdateOp)
    (span span' literalSpan : Span) :
    let leading := runIn s ((update span op true target).evaluate host)
    let trailing := runIn s ((update span op false target).evaluate host)
    let compound :=
      runIn s ((assignment span' op.assignment target (literal literalSpan (.number 1))).evaluate
        host)
    leading.1 = compound.1 ∧ leading.2.Agrees compound.2 ∧
      trailing.1 = leading.1.map (fun _ => .number x) ∧ trailing.2.Agrees leading.2 := by
  intro leading trailing compound
  obtain ⟨name, keys, hupdate, hassignment⟩ := runIn_update hpath hkeys hnumber
  obtain ⟨u, hu, hleading⟩ := hupdate op true span
  obtain ⟨v, hv, htrailing⟩ := hupdate op false span
  obtain ⟨w, hw, hcompound⟩ := hassignment op span' literalSpan
  -- the three runs start in scopes that agree, and write the same number to the same place
  have hsame : ∀ {u v : Scope} (result : Float), u.Agrees s → v.Agrees s →
      (runFrom u (writeNumber name keys (op.apply x) result target.span)).1 =
        (runFrom v (writeNumber name keys (op.apply x) result target.span)).1 ∧
      (runFrom u (writeNumber name keys (op.apply x) result target.span)).2.Agrees
        (runFrom v (writeNumber name keys (op.apply x) result target.span)).2 := fun result hu hv =>
    uniform_writeNumber name keys (op.apply x) result target.span _ _ (hu.trans hv.symm)
  rw [if_pos rfl] at hleading
  rw [if_neg Bool.false_ne_true,
    runFrom_writeNumber_result v name keys (op.apply x) (op.apply x)] at htrailing
  rw [show leading = _ from hleading, show trailing = _ from htrailing,
    show compound = _ from hcompound]
  refine ⟨(hsame _ hu hw).1, (hsame _ hu hw).2, ?_, (hsame _ hv hu).2⟩
  rw [(hsame _ hv hu).1]

/-! ### Keys without writes -/

/-- An expression that writes nothing, looks nothing up and calls nothing. -/
def IsPlain (e : Expr) : Prop :=
  ∀ x ∈ e.subterms, match x with
    | update _ _ _ _ | assignment _ _ _ _ | member _ _ _ _ | call _ _ _ _ => False
    | _ => True

/-- Evaluating a plain expression depends on the bindings alone, and keeps them. -/
theorem uniform_of_isPlain (host : Host) (s : Scope) {e : Expr} (h : e.IsPlain) :
    Uniform (fun t u => t.Agrees s ∧ u.Agrees s) (links host e) := by
  induction e using Expr.induct with
  | step e ih =>
    have hself := h e (mem_subterms_self e)
    have hpart : ∀ x ∈ e.parts, Uniform (fun t u => t.Agrees s ∧ u.Agrees s) (links host x) :=
      fun x hx => ih x hx fun y hy => h y (mem_subterms_of_part hx hy)
    -- a plain expression writes nothing, so scopes that agree with `s` give one value
    cases e with
    | literal span l => exact .pure _
    | identifier span name =>
      refine .bind (.bind (.look fun t u htu => ?_) fun found => ?_) fun _ => .pure _
      · exact (htu.1.get? name).trans (htu.2.get? name).symm
      · cases found with
        | none => exact uniform_fail _ _
        | some v => exact .pure v
    | array span elements => exact .bind (uniform_items hpart) fun _ => .pure _
    | object span members => exact .bind (uniform_fields hpart _) fun _ => .pure _
    | sequence span es => exact .bind (uniform_inOrder hpart _) fun _ => .pure _
    | binary span op left right =>
      unfold links
      split
      · exact uniform_fail _ _
      · exact .bind (hpart left (by simp [parts])) fun _ =>
          .bind (hpart right (by simp [parts])) fun _ =>
          .bind (uniform_ofResult _ _) fun _ => .pure _
    | logical span op left right =>
      refine .bind (hpart left (by simp [parts])) fun _ => ?_
      dsimp only
      split
      · exact .pure _
      · exact .bind (hpart right (by simp [parts])) fun _ => .pure _
    | unary span op argument =>
      unfold links
      split
      · exact uniform_fail _ _
      · exact .bind (hpart argument (by simp [parts])) fun _ =>
          .bind (uniform_ofResult _ _) fun _ => .pure _
    | conditional span test consequent alternate =>
      refine .bind (hpart test (by simp [parts])) fun _ => ?_
      split
      · exact .bind (hpart consequent (by simp [parts])) fun _ => .pure _
      · exact .bind (hpart alternate (by simp [parts])) fun _ => .pure _
    | chain span inner => exact .bind (hpart inner (by simp [parts])) fun _ => .pure _
    | update span op leading argument => exact hself.elim
    | assignment span op target value => exact hself.elim
    | member span owner property optional => exact hself.elim
    | call span callee arguments optional => exact hself.elim

/-- Names of parts, and keys that are plain, may be evaluated again. -/
theorem steadyIn_of_isPlain (host : Host) (s : Scope) {p : Property}
    (h : ∀ e ∈ p.exprs, e.IsPlain) :
    SteadyIn host s p := by
  intro t u ht hu
  have hkey := uniform_propertyKey fun e he => uniform_of_isPlain host s (h e he)
  exact ⟨(hkey t u ⟨ht.agrees, hu.agrees⟩).1, (hkey t u ⟨ht.agrees, hu.agrees⟩).2.1⟩

/-- In `++o[k]` the key is plain. -/
theorem update_eq_assignment_plainKey :
    let s := Scope.ofFields [("o", .object [("a", .number 1)]), ("k", .string "a")]
    let target : Expr := .member
      ⟨0, 4⟩ (.identifier ⟨0, 1⟩ "o") (.computed (.identifier ⟨2, 3⟩ "k")) false
    target.IsPath ∧ (∀ p ∈ target.pathKeys, SteadyIn plainSetting.host s p) ∧
      (runIn s (target.evaluate plainSetting.host)).1 = .ok (.number 1) ∧
      (runIn s ((update ⟨0, 6⟩ .increment true target).evaluate plainSetting.host)).1 =
        (runIn s ((assignment ⟨0, 9⟩ (.binary .add rfl) target
          (literal ⟨8, 9⟩ (.number 1))).evaluate plainSetting.host)).1 := by
  intro s target
  have hkeys : ∀ p ∈ target.pathKeys, SteadyIn plainSetting.host s p := by
    intro p hp
    obtain rfl := List.mem_singleton.1 hp
    refine steadyIn_of_isPlain plainSetting.host s fun e he => ?_
    obtain rfl := List.mem_singleton.1 he
    intro x hx
    obtain rfl := List.mem_singleton.1 hx
    trivial
  have hnumber : (runIn s (target.evaluate plainSetting.host)).1 = .ok (.number 1) := rfl
  have hpath : target.IsPath := trivial
  exact ⟨hpath, hkeys, hnumber, (update_eq_assignment hpath hkeys hnumber .increment ⟨0, 6⟩
    ⟨0, 9⟩ ⟨8, 9⟩).1⟩

/-- A key that is written where it is evaluated is written twice by an update: `++o[k += 'x']` adds
two letters to `k`, and `o[k += 'x'] += 1` adds one. -/
theorem update_writes_key_twice :
    let s := Scope.ofFields [("o", .object [("x", .number 1), ("xx", .number 2)]),
      ("k", .string "")]
    let target : Expr := .member ⟨0, 11⟩ (.identifier ⟨0, 1⟩ "o")
      (.computed (.assignment ⟨2, 10⟩ (.binary .add rfl) (.identifier ⟨2, 3⟩ "k")
        (.literal ⟨7, 10⟩ (.string "x")))) false
    target.IsPath ∧ (runIn s (target.evaluate plainSetting.host)).1 = .ok (.number 1) ∧
      (runIn s ((update ⟨0, 13⟩ .increment true target).evaluate plainSetting.host)).2.get? "k" =
        some (.string "xx") ∧
      (runIn s ((assignment ⟨0, 16⟩ (.binary .add rfl) target
        (literal ⟨15, 16⟩ (.number 1))).evaluate
        plainSetting.host)).2.get? "k" = some (.string "x") :=
  ⟨trivial, rfl, rfl, rfl⟩

end Expr

end PromptMarkup

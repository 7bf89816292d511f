/-
How often a walk evaluates an expression.

* `Occasion` — an expression of a node, in the iterations around a visit of the node;
* `Walk.tally` — how often a walk has evaluated an expression on an occasion;
* `Tallies` — a part of a walk does so at most so many times, and the numbers add up
  (`Tallies.bind`);
* `Node.tallies_once` — one walk evaluates every expression at most once on every occasion.

Design notes: `Tallies` asks only which visits are over or have paused when the part starts, because
nothing else decides what is evaluated again.  Most parts of a walk evaluate nothing that belongs to
another node, and this is known already from the events they may leave (`Tallies.elsewhere`).
-/
import Mathlib.Data.List.Flatten
import Mathlib.Data.List.Nodup
import PromptMarkup.Proofs.Questions
import PromptMarkup.Proofs.Spans

namespace PromptMarkup

open PromptMarkup.Computation Walking

/-! ### Occasions -/

/-- An expression of a node, in the iterations around a visit of the node. -/
structure Occasion where
  node : Nat
  path : IterationPath
  span : Span
deriving DecidableEq

/-- The occasion on which an expression was evaluated. -/
def Event.occasion? : Event → Option Occasion
  | .evaluated node path span _ => some ⟨node, path, span⟩
  | _ => none

/-- How often an expression was evaluated on an occasion. -/
def tallyOf (k : Occasion) (events : List Event) : Nat :=
  (events.filterMap Event.occasion?).count k

/-- How often a walk has evaluated an expression on an occasion. -/
def Walk.tally (w : Walk) (k : Occasion) : Nat :=
  tallyOf k w.journal

theorem tallyOf_append (k : Occasion) (l r : List Event) :
    tallyOf k (l ++ r) = tallyOf k l + tallyOf k r := by
  rw [tallyOf, List.filterMap_append, List.count_append]
  rfl

theorem tallyOf_reverse (k : Occasion) (events : List Event) :
    tallyOf k events.reverse = tallyOf k events := by
  rw [tallyOf, List.filterMap_reverse, List.count_reverse]
  rfl

theorem tallyOf_eq_zero {k : Occasion} {events : List Event}
    (h : ∀ e ∈ events, e.occasion? ≠ some k) : tallyOf k events = 0 := by
  refine List.count_eq_zero.2 fun hmem => ?_
  obtain ⟨e, he, hk⟩ := List.mem_filterMap.1 hmem
  exact h e he hk

/-- An event that is no evaluation does not count. -/
theorem tallyOf_cons_of_none {k : Occasion} {e : Event} {events : List Event}
    (h : e.occasion? = none) :
    tallyOf k (e :: events) = tallyOf k events := by
  rw [tallyOf, List.filterMap_cons_none h]
  rfl

theorem tallyOf_cons_evaluated (k : Occasion) (node : Nat) (path : IterationPath) (span : Span)
    (names : List String) (events : List Event) :
    tallyOf k (.evaluated node path span names :: events) =
      tallyOf k events + if k = ⟨node, path, span⟩ then 1 else 0 := by
  have hsome : (Event.evaluated node path span names).occasion? = some ⟨node, path, span⟩ := rfl
  rw [tallyOf, List.filterMap_cons_some hsome, List.count_cons]
  simp only [beq_iff_eq, eq_comm (a := k)]
  rfl

namespace Occasion

/-- An occasion for one of the given nodes, inside of the iterations of a path. -/
def Inside (k : Occasion) (ids : List Nat) (path : IterationPath) : Prop :=
  k.node ∈ ids ∧ path <+: k.path

instance (k : Occasion) (ids : List Nat) (path : IterationPath) : Decidable (k.Inside ids path) :=
  inferInstanceAs (Decidable (_ ∧ _))

variable {k : Occasion} {ids : List Nat} {path : IterationPath}

theorem inside_of_event {e : Event} (he : e.Inside ids path) (hk : e.occasion? = some k) :
    k.Inside ids path := by
  cases e with
  | evaluated node at_ span names =>
    obtain rfl := Option.some.inj hk
    exact he
  | _ => exact nomatch hk

/-- An occasion lies in one iteration of a loop at most. -/
theorem Inside.eq_index {ids' : List Nat} {i j : Nat} (hi : k.Inside ids (path ++ [i]))
    (hj : k.Inside ids' (path ++ [j])) : i = j := by
  have heq : path ++ [i] = path ++ [j] :=
    (List.prefix_of_prefix_length_le hi.2 hj.2 (by simp)).eq_of_length (by simp)
  simpa using heq

end Occasion

/-! ### Parts of a walk -/

/-- A part of a walk that starts with the given statuses evaluates an expression on an occasion at
most `c` times. -/
def Tallies {α : Type} (k : Occasion) (c : Nat) (s : Statuses) (x : Walking α) : Prop :=
  ∀ w : Walk, w.statuses = s → (runFrom w x).2.tally k ≤ w.tally k + c

namespace Tallies

variable {α β : Type} {k : Occasion} {c d : Nat} {s : Statuses} {x : Walking α} {act : Walking Unit}
  {ids : List Nat} {path : IterationPath} {w t : Walk}

theorem mono (h : Tallies k c s x) (hcd : c ≤ d) : Tallies k d s x :=
  fun w hw => Nat.le_trans (h w hw) (Nat.add_le_add_left hcd _)

theorem pure (a : α) : Tallies k 0 s (Pure.pure a : Walking α) :=
  fun _ _ => Nat.le_refl _

theorem bind {f : α → Walking β} (hx : Tallies k c s x)
    (hf : ∀ a w t, w.statuses = s → runFrom w x = (.ok a, t) → Tallies k d t.statuses (f a)) :
    Tallies k (c + d) s (x >>= f) := by
  intro w hw
  have hfirst := hx w hw
  rcases hrun : runFrom w x with ⟨e | a, t⟩
  · rw [hrun] at hfirst
    rw [runFrom_bind_error hrun]
    exact Nat.le_trans hfirst (by omega)
  · rw [hrun] at hfirst
    rw [runFrom_bind_ok hrun]
    have hrest := hf a w t hw hrun t rfl
    dsimp only at hfirst
    omega

/-- Behind a leaf the statuses are what they were. -/
theorem bind_leaf {f : α → Walking β} {id : Nat} {sure still : Prop} (hx : Tallies k c s x)
    (hleaf : Respects (leaf id path sure still) x) (hf : ∀ a, Tallies k d s (f a)) :
    Tallies k (c + d) s (x >>= f) := by
  refine hx.bind fun a w t hw hrun => ?_
  have hsame : t.statuses = s := by rw [((hleaf w).done hrun).1.same, ← hw]
  exact hsame ▸ hf a

theorem bind_silent {f : α → Walking β} {id : Nat} {sure still : Prop} (hx : Tallies k c s x)
    (hsilent : Respects (silent id path sure still) x) (hf : ∀ a, Tallies k d s (f a)) :
    Tallies k (c + d) s (x >>= f) :=
  hx.bind_leaf (leaf_of_silent hsilent (fun h => h) fun h => h) hf

/-- What a walk evaluates for other nodes or in other iterations does not count. -/
theorem elsewhere {steps still : Prop} (h : Respects (progress ids path steps still) x)
    (hk : ¬ k.Inside ids path) : Tallies k 0 s x := by
  intro w _
  have hadds : Respects (adds fun e => e.occasion? ≠ some k) x :=
    adds_of_progress h fun e he hek => hk (Occasion.inside_of_event he hek)
  obtain ⟨-, new, hnew, hother⟩ := Adds.of_respects (hadds w)
  rw [Walk.tally, hnew, tallyOf_append, tallyOf_eq_zero hother, Nat.zero_add]
  exact Nat.le_refl _

theorem silent_elsewhere {id : Nat} {sure still : Prop} (h : Respects (silent id path sure still) x)
    (hk : k.node ≠ id) : Tallies k 0 s x := by
  have hx : Respects (progress [id] path False still) x :=
    progress_of_silent h (List.mem_singleton.2 rfl) fun h => h
  exact elsewhere hx fun hin => hk (List.mem_singleton.1 hin.1)

/-- A leaf evaluates nothing if it could be a leaf of any node. -/
theorem quiet (h : Respects (leaf (k.node + 1) [] False False) x) : Tallies k 0 s x := by
  have hx : Respects (progress [k.node + 1] [] False False) x :=
    progress_of_leaf h (List.mem_singleton.2 rfl) fun h => h
  exact elsewhere hx fun hin => Nat.succ_ne_self _ (List.mem_singleton.1 hin.1).symm

theorem fail (fault : Fault) (info : NodeInfo) :
    Tallies k c s (Walking.fail fault info : Walking α) :=
  (quiet (leaf_fail False.elim info)).mono (Nat.zero_le c)

/-- A quiet leaf in front of a part does not count. -/
theorem behind {f : α → Walking β} (h : Respects (leaf (k.node + 1) [] False False) x)
    (hf : ∀ a, Tallies k d s (f a)) : Tallies k d s (x >>= f) := by
  have hboth : Tallies k (0 + d) s (x >>= f) := (quiet h).bind_leaf h hf
  rwa [Nat.zero_add] at hboth

theorem behind_silent {f : α → Walking β} (h : Respects (silent (k.node + 1) [] False False) x)
    (hf : ∀ a, Tallies k d s (f a)) : Tallies k d s (x >>= f) :=
  behind (leaf_of_silent h (fun h => h) fun h => h) hf

theorem behind_look {part : Walk → α} {f : α → Walking β} (hf : ∀ a, Tallies k d s (f a)) :
    Tallies k d s (look part >>= f) := by
  intro w hw
  rw [runFrom_bind_ok (runFrom_look w part)]
  exact hf _ w hw

/-- What evaluates nothing behind a part does not count. -/
theorem before {f : α → Walking β} (hx : Tallies k c s x) (hf : ∀ a s, Tallies k 0 s (f a)) :
    Tallies k c s (x >>= f) :=
  hx.bind fun a _ t _ _ => hf a t.statuses

/-! ### Parts in another state -/

/-- A part counts what a part of it counts. -/
theorem echo {γ : Type} {y : Walking γ} {u : Walk} (hx : Tallies k c s x)
    (h : Echoes (runFrom u x) (runFrom w y)) (hu : u.statuses = s)
    (htally : u.tally k = w.tally k) :
    (runFrom w y).2.tally k ≤ w.tally k + c := by
  rw [Walk.tally, h.journal, ← htally]
  exact hx u hu

theorem inCopy (h : Tallies k c s act) : Tallies k c s (Walking.inCopy act) :=
  fun _ hw => h.echo echoes_inCopy hw rfl

theorem entering {turn : Turn} (h : Tallies k c s act) :
    Tallies k c s (Walking.entering turn act) :=
  fun _ hw => h.echo echoes_entering hw (tallyOf_cons_of_none rfl)

theorem onPause {record : Walk → Walk} (hmessages : ∀ t, (record t).messages = t.messages)
    (hjournal : ∀ t, (record t).journal = t.journal) (h : Tallies k c s act) :
    Tallies k c s (Walking.onPause record act) :=
  fun _ hw => h.echo (echoes_onPause hmessages hjournal) hw rfl

theorem within {there back : Walk → Walk} (hmessages : ∀ t, (back t).messages = t.messages)
    (hback : ∀ t, (back t).journal = t.journal) (hstatuses : ∀ t, (there t).statuses = t.statuses)
    (hthere : ∀ t, (there t).journal = t.journal) (h : Tallies k c s act) :
    Tallies k c s (Walking.within there back act) :=
  fun w hw => h.echo (echoes_within hmessages hback) ((hstatuses w).trans hw)
    (congrArg (tallyOf k) (hthere w))

theorem inArguments {flag : Bool} (h : Tallies k c s act) :
    Tallies k c s (Walking.inArguments flag act) :=
  fun _ hw => h.echo echoes_inArguments hw rfl

theorem captured (h : Tallies k c s act) : Tallies k c s (Walking.captured act) :=
  fun _ hw => h.echo echoes_captured hw rfl

/-- A visit that is over evaluates nothing. -/
theorem visiting_over {id : Nat} (h : s.completed id path = true) :
    Tallies k 0 s (visiting id path act) := by
  intro w hw
  rw [runFrom_visiting_over (hw ▸ h)]
  exact Nat.le_refl _

theorem visiting {id : Nat} (h : ∀ w : Walk, w.statuses = s →
    Tallies k c (w.enter id path).statuses act) : Tallies k c s (Walking.visiting id path act) := by
  intro w hw
  rcases hover : w.statuses.completed id path with _ | _
  · have hjournal : (w.enter id path).journal = w.journal := by
      unfold Walk.enter
      split
      · rfl
      · rfl
    exact (h w hw).echo (echoes_visiting hover) rfl (congrArg (tallyOf k) hjournal)
  · exact Nat.le_trans (visiting_over (hw ▸ hover) w hw) (Nat.add_le_add_left (Nat.zero_le c) _)

end Tallies

namespace Walking

variable {setting : Setting} {k : Occasion} {c d : Nat} {s : Statuses} {id : Nat}
  {path : IterationPath} {body otherwise : Walking Unit}

/-! ### Evaluations -/

theorem tallies_evaluate (setting : Setting) (id : Nat) (path : IterationPath) (e : Expr) :
    Tallies k (if k = ⟨id, path, e.span⟩ then 1 else 0) s (evaluate setting id path e) := by
  intro w _
  have hchanged : ∀ scope,
    (evaluatedIn w id path e scope).tally k = w.tally k + if k = ⟨id, path, e.span⟩ then 1 else 0 :=
    fun scope => tallyOf_cons_evaluated k id path e.span _ w.journal
  rw [runFrom_evaluate]
  rcases runFrom w.scope (e.evaluate setting.host) with ⟨p | v, scope⟩
  · exact Nat.le_of_eq (hchanged scope)
  · exact Nat.le_of_eq (hchanged scope)

theorem tallies_evaluate_once (setting : Setting) (id : Nat) (path : IterationPath) (e : Expr) :
    Tallies k 1 s (evaluate setting id path e) := by
  refine (tallies_evaluate setting id path e).mono ?_
  split
  · exact Nat.le_refl 1
  · exact Nat.zero_le 1

theorem tallies_write (id : Nat) (path : IterationPath) (text : String) :
    Tallies k 0 s (write id path text) := by
  intro w _
  show tallyOf k (.wrote id path _ text :: w.journal) ≤ _
  rw [tallyOf_cons_of_none rfl]
  exact Nat.le_refl _

theorem tallies_place (id : Nat) (path : IterationPath) (content : Content) :
    Tallies k 0 s (place id path content) := by
  intro w _
  show tallyOf k (.placed id path content :: w.journal) ≤ _
  rw [tallyOf_cons_of_none rfl]
  exact Nat.le_refl _

theorem tallies_call (id : Nat) (path : IterationPath) (pending : PendingCall) :
    Tallies k 0 s (call id path pending) := by
  intro w _
  show tallyOf k (.called id path pending.call :: w.journal) ≤ _
  rw [tallyOf_cons_of_none rfl]
  exact Nat.le_refl _

theorem tallies_placeContent (info : NodeInfo) (path : IterationPath) (kind : ContentKind)
    (text : String) :
    Tallies k 0 s (placeContent info path kind text) := by
  cases kind with
  | text => exact tallies_place info.id path _
  | image =>
    unfold placeContent
    dsimp only
    split
    · exact Tallies.fail _ info
    · exact tallies_place info.id path _

theorem tallies_mustache (setting : Setting) (id : Nat) (path : IterationPath) (e : Expr) :
    Tallies k 1 s (mustache setting id path e) := by
  refine (tallies_evaluate_once setting id path e).bind (d := 0) fun v _ t _ _ => ?_
  cases v with
  | undefined => exact Tallies.pure _
  | _ =>
    dsimp only
    split
    · exact Tallies.pure _
    · exact tallies_write id path _

theorem tallies_takesBranch (setting : Setting) (id : Nat) (path : IterationPath) (e : Expr) :
    Tallies k 1 s (takesBranch setting id path e) := by
  refine Tallies.behind_look fun decision => ?_
  have hagain : Tallies k 1 s (do
      let v ← evaluate setting id path e
      return v.truthy) :=
    (tallies_evaluate_once setting id path e).bind fun _ _ _ _ _ => Tallies.pure _
  cases decision with
  | branch taken => exact (Tallies.pure taken).mono (Nat.zero_le 1)
  | _ => exact hagain

theorem tallies_takeItems (setting : Setting) (id : Nat) (path : IterationPath) (e : Expr) :
    Tallies k (if k = ⟨id, path, e.span⟩ then 1 else 0) s (takeItems setting id path e) := by
  refine Tallies.behind_look fun decision => ?_
  have hagain : Tallies k (if k = ⟨id, path, e.span⟩ then 1 else 0) s (do
      let v ← evaluate setting id path e
      return (⟨itemsOf v, 0, none⟩ : Loop)) :=
    (tallies_evaluate setting id path e).bind fun _ _ _ _ _ => Tallies.pure _
  cases decision with
  | iteration items i v => exact (Tallies.pure _).mono (Nat.zero_le _)
  | _ => exact hagain

/-- The key of a loop is evaluated in the iteration that is entered. -/
theorem tallies_setIndex (setting : Setting) (id : Nat) (path : IterationPath) (header : ForHeader)
    (i : Nat) (resumed : Option Value) :
    Tallies k (if k.Inside [id] (path ++ [i]) then 1 else 0) s
      (setIndex setting id path header i resumed) := by
  -- nothing but the key's own evaluation can be `k`
  have hnone : ∀ {α : Type} {x : Walking α}, Tallies k 0 s x →
      Tallies k (if k.Inside [id] (path ++ [i]) then 1 else 0) s x :=
    fun h => h.mono (Nat.zero_le _)
  unfold setIndex
  cases header.index with
  | none => exact hnone (Tallies.pure _)
  | some name =>
    have hvalue : Tallies k (if k.Inside [id] (path ++ [i]) then 1 else 0) s
        (indexValue setting id path header i resumed) := by
      unfold indexValue
      cases resumed with
      | some v => exact hnone (Tallies.pure _)
      | none =>
        cases header.key with
        | none => exact hnone (Tallies.pure _)
        | some key =>
          refine (tallies_evaluate setting id (path ++ [i]) key).mono ?_
          by_cases hk : k = ⟨id, path ++ [i], key.span⟩
          · rewrite [if_pos hk, if_pos ⟨List.mem_singleton.2 (hk ▸ rfl), hk ▸ List.prefix_rfl⟩]
            exact Nat.le_refl 1
          · rw [if_neg hk]
            exact Nat.zero_le _
    have hset : ∀ v, Respects (silent (k.node + 1) [] False False) (setVariable name v) :=
      silent_setVariable name
    exact hvalue.before fun v _ => Tallies.behind_silent (hset v) fun _ => Tallies.pure _

/-- The index of an iteration that is resumed is not computed again. -/
theorem tallies_setIndex_resumed {header : ForHeader} {i : Nat} {v : Option Value}
    (h : header.index.isSome → v.isSome) :
    Tallies k 0 s (setIndex setting id path header i v) := by
  unfold setIndex
  cases hindex : header.index with
  | none => exact Tallies.pure _
  | some name =>
    obtain ⟨value, rfl⟩ := Option.isSome_iff_exists.1 (h (by rw [hindex]; rfl))
    have hset : ∀ v, Respects (silent (k.node + 1) [] False False) (setVariable name v) :=
      silent_setVariable name
    have hgiven : Respects (silent (k.node + 1) [] False False)
        (indexValue setting id path header i (some value)) := Respects.pure value
    exact Tallies.behind_silent hgiven fun v =>
      Tallies.behind_silent (hset v) fun _ => Tallies.pure _

theorem tallies_evaluate_span (setting : Setting) (id : Nat) (path : IterationPath) (e : Expr) :
    Tallies k (if e.span == k.span then 1 else 0) s (evaluate setting id path e) := by
  refine (tallies_evaluate setting id path e).mono ?_
  by_cases heq : k = ⟨id, path, e.span⟩
  · rewrite [if_pos heq, if_pos (by rw [heq]; exact beq_self_eq_true _)]
    exact Nat.le_refl 1
  · rw [if_neg heq]
    exact Nat.zero_le _

/-! ### Blocks -/

theorem tallies_ifBlock {condition : Expr}
    (hcondition : Tallies k c s (takesBranch setting id path condition))
    (hpart : ∀ taken w t, w.statuses = s →
      runFrom w (takesBranch setting id path condition) = (.ok taken, t) →
      Tallies k d s (if taken then body else otherwise)) :
    Tallies k (c + d) s (ifBlock setting id path condition body otherwise) := by
  refine hcondition.bind fun taken w t hw hrun => ?_
  have hsame : t.statuses = s :=
    ((silent_takesBranch setting id path condition w).done hrun).1.statuses.trans hw
  rw [hsame]
  refine Tallies.onPause (fun _ => rfl) (fun _ => rfl) (Tallies.entering ?_)
  have hinner := hpart taken w t hw hrun
  cases taken with
  | true => exact Tallies.inCopy hinner
  | false => exact hinner

theorem tallies_forBlock {info : NodeInfo} {header : ForHeader}
    {body : IterationPath → Walking Unit}
    (hitems : Tallies k c s (takeItems setting info.id path header.iterable))
    (hpart : ∀ loop w t, w.statuses = s →
      runFrom w (takeItems setting info.id path header.iterable) = (.ok loop, t) →
      if loop.items.isEmpty then Tallies k d s otherwise
      else Tallies k d s (iterations setting info.id path header loop.items body loop.first
        loop.resumed
        (loop.items.drop loop.first))) :
    Tallies k (c + d) s (forBlock setting info path header body otherwise) := by
  have hnames : Respects (silent (k.node + 1) [] False False) (checkNames info header) :=
    silent_checkNames info header
  -- what the names check and the iterable do not count, the part walked does
  refine Tallies.behind_silent hnames fun _ => hitems.bind fun loop w t hw hrun => ?_
  have hsame : t.statuses = s :=
    ((silent_takeItems setting info.id path header.iterable w).done hrun).1.statuses.trans hw
  have hinner := hpart loop w t hw hrun
  rw [hsame]
  split
  -- the else part
  · next hempty =>
    rw [if_pos hempty] at hinner
    exact Tallies.entering hinner
  · next hsome =>
    rw [if_neg hsome] at hinner
    exact hinner

theorem tallies_iteration {header : ForHeader} {items : List Value}
    {body : IterationPath → Walking Unit} {i : Nat} {resumed : Option Value} {item : Value}
    (hindex : Tallies k c s (setIndex setting id path header i resumed))
    (hbody : Tallies k d s (body (path ++ [i]))) :
    Tallies k (c + d) s (iteration setting id path header items body i resumed item) := by
  have hset : Respects (silent (k.node + 1) [] False False) (setVariable header.item item) :=
    silent_setVariable _ _
  refine Tallies.entering (Tallies.inCopy (Tallies.behind_silent hset fun _ => ?_))
  refine hindex.bind_silent (silent_setIndex setting id path header i resumed) fun v => ?_
  exact Tallies.onPause (fun _ => rfl) (fun _ => rfl) hbody

/-! ### Elements -/

section Elements

variable {info : NodeInfo} {attributes : List Attribute}

theorem tallies_partsText (setting : Setting) (id : Nat) (path : IterationPath)
    (parts : List AttributePart) :
    Tallies k ((spansOf (parts.filterMap AttributePart.expression?)).count k.span) s
      (partsText setting id path parts) := by
  induction parts with
  | nil => exact Tallies.pure ""
  | cons part rest ih =>
    cases part with
    | text span data => exact ih.bind (d := 0) fun _ _ _ _ _ => Tallies.pure _
    | expression e =>
      have hrest : ∀ v : Value, Tallies k
        ((spansOf (rest.filterMap AttributePart.expression?)).count k.span)
          s (do return v.rendered ++ (← partsText setting id path rest)) :=
        fun v => ih.bind (d := 0) fun _ _ _ _ _ => Tallies.pure _
      have hparts :
        spansOf ((AttributePart.expression e :: rest).filterMap AttributePart.expression?) =
          e.span :: spansOf (rest.filterMap AttributePart.expression?) := rfl
      -- one more occurrence of the span, and one more evaluation of it
      rw [hparts, List.count_cons, Nat.add_comm]
      exact ((tallies_evaluate_span setting id path e).bind_silent
        (silent_evaluate setting id path e)
        hrest)

theorem tallies_attributeValue (setting : Setting) (id : Nat) (path : IterationPath)
    (a : Attribute) :
    Tallies k ((spansOf a.expressions).count k.span) s (attributeValue setting id path a) := by
  unfold attributeValue
  split
  · exact (Tallies.pure _).mono (Nat.zero_le _)
  · next e hparts =>
    have hexpressions : spansOf a.expressions = [e.span] := by
      rw [Attribute.expressions, hparts]
      rfl
    rw [hexpressions, List.count_singleton]
    exact tallies_evaluate_span setting id path e
  · next parts _ hparts =>
    have hexpressions : a.expressions = parts.filterMap AttributePart.expression? := by
      rw [Attribute.expressions, hparts]
      rfl
    rw [hexpressions]
    exact (tallies_partsText setting id path parts).bind (d := 0) fun _ _ _ _ _ => Tallies.pure _

/-- Whether a name is declared does not matter here, nor whether there is a problem. -/
theorem quiet_attributeValue (setting : Setting) (id : Nat) (path : IterationPath) (a : Attribute) :
    Respects (silent id path False False) (attributeValue setting id path a) :=
  silent_attributeValue setting id path False.elim False.elim

theorem quiet_stepConfig (setting : Setting) (id : Nat) (path : IterationPath)
    (attributes : List Attribute) :
    Respects (silent id path False False) (stepConfig setting id path attributes) :=
  silent_stepConfig setting id path False.elim False.elim

theorem tallies_attributeValues (setting : Setting) (id : Nat) (path : IterationPath)
    (attributes : List Attribute) :
    Tallies k ((spansOf (attributes.flatMap Attribute.expressions)).count k.span) s
      (attributeValues setting id path attributes) := by
  induction attributes with
  | nil => exact Tallies.pure []
  | cons a rest ih =>
    have hspans : spansOf ((a :: rest).flatMap Attribute.expressions) =
        spansOf a.expressions ++ spansOf (rest.flatMap Attribute.expressions) := by
      rw [List.flatMap_cons, spansOf, List.map_append]
      rfl
    rw [hspans, List.count_append]
    refine (tallies_attributeValue setting id path a).bind_silent
      (quiet_attributeValue setting id path a)
      fun v => ?_
    exact ih.bind (d := 0) fun _ _ _ _ _ => Tallies.pure _

theorem tallies_stepConfig (setting : Setting) (id : Nat) (path : IterationPath)
    (attributes : List Attribute) :
    Tallies k ((spansOf (attributes.flatMap Attribute.expressions)).count k.span) s
      (stepConfig setting id path attributes) := by
  refine Tallies.behind_look fun paused => ?_
  cases paused with
  | some pointers => exact (Tallies.pure _).mono (Nat.zero_le _)
  | none =>
    have hothers :
      (spansOf ((Attribute.others attributes "as").flatMap Attribute.expressions)).Sublist
        (spansOf (attributes.flatMap Attribute.expressions)) :=
      (List.filter_sublist.flatMap _).map _
    refine ((tallies_attributeValues setting id path _).bind (d := 0) fun values _ _ _ _ => ?_).mono
      (hothers.count_le _)
    exact Tallies.pure _

/-- A step that is resumed does not evaluate its attributes. -/
theorem tallies_stepConfig_resumed (setting : Setting) {id : Nat} {path : IterationPath}
    (attributes : List Attribute) (h : (s.pausedAt? id path).isSome) :
    Tallies k 0 s (stepConfig setting id path attributes) := by
  intro w hw
  obtain ⟨pointers, hpointers⟩ := Option.isSome_iff_exists.1 h
  unfold stepConfig
  rw [runFrom_bind_ok (runFrom_look w _), hw, hpointers]
  exact Nat.le_refl _

theorem tallies_message {role : Option Role}
    (hvalues : Tallies k c s (attributeValues setting info.id path attributes))
    (hbody : Tallies k d s body) :
    Tallies k (c + d) s (message setting info path role attributes body) := by
  refine Tallies.behind_look fun inMessage => ?_
  split
  · exact Tallies.fail _ info
  · refine hvalues.bind_silent (Node.silent_values setting info.id path attributes) fun values => ?_
    refine Tallies.behind_silent (silent_messageRole info role values) fun role => ?_
    dsimp only
    generalize (if role = Role.tool then textOf? values "id" else none) = toolId
    split
    · exact Tallies.fail _ info
    · refine Tallies.behind (leaf_closeMessage setting) fun _ => ?_
      refine Tallies.before (Tallies.within (fun _ => rfl) (fun _ => rfl) (fun _ => rfl)
        (fun _ => rfl) (Tallies.inArguments hbody)) fun _ _ => Tallies.quiet ?_
      exact Respects.bind leaf_takeContent fun _ => Respects.bind (leaf_placeToolCalls _ _) fun _ =>
        leaf_emit _

theorem tallies_contentTag {kind : ContentKind}
    (hvalues : Tallies k c s (attributeValues setting info.id path attributes))
    (hbody : Tallies k d s body) :
    Tallies k (c + d) s (contentTag setting info path kind attributes body) := by
  refine Tallies.behind_look fun inContent => ?_
  split
  · exact Tallies.fail _ info
  · refine hvalues.bind_silent (Node.silent_values setting info.id path attributes) fun _ => ?_
    refine Tallies.behind leaf_closeText fun _ => ?_
    refine Tallies.before (Tallies.within (fun _ => rfl) (fun _ => rfl) (fun _ => rfl)
      (fun _ => rfl) (Tallies.inArguments hbody)) fun _ _ => Tallies.behind_look fun stray => ?_
    exact Tallies.behind (leaf_modify fun _ => rfl) fun _ => tallies_placeContent info path kind _

theorem tallies_toolCall
    (hvalues : Tallies k c s (attributeValues setting info.id path attributes))
    (hbody : Tallies k d s body) :
    Tallies k (c + d) s (toolCall setting info path attributes body) := by
  refine Tallies.behind_look fun inContent => ?_
  split
  · exact Tallies.fail _ info
  · refine hvalues.bind_silent (Node.silent_values setting info.id path attributes) fun values => ?_
    split
    · exact Tallies.fail _ info
    · exact Tallies.fail _ info
    · refine Tallies.before (Tallies.captured (Tallies.inArguments hbody)) fun text _ => ?_
      exact Tallies.behind (leaf_toolArguments info text) fun _ => tallies_call info.id path _

theorem tallies_takeResponse (name : Option String) (config : Fields Json) :
    Tallies k 0 s (takeResponse setting id path name config) := by
  intro w _
  have hclosed : (w.closed setting).journal = w.journal := by rw [Walk.closed_eq]
  rcases hw : w.responses with _ | ⟨response, rest⟩
  · rw [runFrom_takeResponse_nil hw]
    show tallyOf k (.asked id path w.turns :: (w.closed setting).journal) ≤ _
    rw [tallyOf_cons_of_none rfl, hclosed]
    exact Nat.le_refl _
  · rw [runFrom_takeResponse_cons hw]
    show tallyOf k ((answered id path response rest w).closed setting).journal ≤ _
    rw [closed_answered]
    show tallyOf k (.answered id path w.turns response :: (w.closed setting).journal) ≤ _
    rw [tallyOf_cons_of_none rfl, hclosed]
    exact Nat.le_refl _

theorem tallies_step (hconfig : Tallies k c s (stepConfig setting info.id path attributes))
    (hbody : Tallies k d s body) :
    Tallies k (c + d) s (step setting info path attributes body) := by
  refine Tallies.behind_look fun inStep => ?_
  split
  · exact Tallies.fail _ info
  · refine Tallies.behind_look fun inMessage => ?_
    split
    · exact Tallies.fail _ info
    · refine Tallies.behind_silent (silent_stepName False.elim) fun name => ?_
      refine hconfig.bind_silent
        (quiet_stepConfig setting info.id path attributes)
        fun config => ?_
      refine Tallies.bind (d := 0) (Tallies.within (fun _ => rfl) (fun _ => rfl) (fun _ => rfl)
        (fun _ => rfl) hbody) fun _ _ _ _ _ => ?_
      exact tallies_takeResponse name config

/-- An element evaluates its attributes, and what is inside of it. -/
theorem tallies_element {name : String}
    (hvalues : Tallies k c s (attributeValues setting info.id path attributes))
    (hconfig : Tallies k c s (stepConfig setting info.id path attributes))
    (hbody : Tallies k d s body) :
    Tallies k (c + d) s (element setting info path name attributes body) := by
  unfold element
  cases TagKind.ofName name with
  | message role => exact tallies_message hvalues hbody
  | content kind => exact tallies_contentTag hvalues hbody
  | toolCall => exact tallies_toolCall hvalues hbody
  | reference =>
    dsimp only
    split
    · exact Tallies.fail _ info
    · exact Tallies.fail _ info
  | step => exact tallies_step hconfig hbody
  | unknown =>
    refine (Tallies.behind (leaf_report False.elim _ _) fun _ => hbody).mono ?_
    exact Nat.le_add_left _ _

end Elements

end Walking

/-! ### Nodes -/

namespace Node

variable {setting : Setting} {k : Occasion} {s : Statuses} {path : IterationPath}

theorem tallies_walk_elsewhere {n : Node} (hk : ¬ k.Inside n.ids path) :
    Tallies k 0 s (n.walk setting path) :=
  Tallies.elsewhere (n.respects_walk path) hk

theorem tallies_walkAll_elsewhere {ns : List Node} (hk : ¬ k.Inside (idsAll ns) path) :
    Tallies k 0 s (walkAll setting ns path) :=
  Tallies.elsewhere (respects_walkAll ns path) hk

/-- An occasion belongs to one of several nodes only. -/
theorem tallies_walkAll_once {ns : List Node} (hnodup : (idsAll ns).Nodup)
    (ih : ∀ m ∈ ns, ∀ s, Tallies k 1 s (m.walk setting path)) (s : Statuses) :
    Tallies k 1 s (walkAll setting ns path) := by
  induction ns generalizing s with
  | nil => exact (Tallies.pure _).mono (Nat.zero_le 1)
  | cons m rest ihrest =>
    rw [idsAll_cons] at hnodup
    obtain ⟨-, hrest, hdisjoint⟩ := List.nodup_append.1 hnodup
    by_cases hk : k.node ∈ m.ids
    · refine (ih m List.mem_cons_self s).bind (d := 0) fun _ _ t _ _ => ?_
      exact tallies_walkAll_elsewhere fun hin => hdisjoint k.node hk k.node hin.1 rfl
    · refine (tallies_walk_elsewhere fun hin => hk hin.1).bind (d := 1) fun _ _ t _ _ => ?_
      exact ihrest hrest (fun x hx => ih x (List.mem_cons_of_mem _ hx)) t.statuses

/-- An iteration in which an occasion does not lie. -/
theorem tallies_iteration_elsewhere {id : Nat} {header : ForHeader} {items : List Value}
    {children : List Node} {i : Nat} {resumed : Option Value} {item : Value}
    (hk : ¬ k.Inside (id :: idsAll children) (path ++ [i])) :
    Tallies k 0 s (iteration setting id path header items
      (fun inner => walkAll setting children inner) i resumed item) := by
  have hown : ¬ k.Inside [id] (path ++ [i]) :=
    fun hin => hk ⟨List.mem_cons.2 (.inl (List.mem_singleton.1 hin.1)), hin.2⟩
  have hindex := tallies_setIndex (k := k) (s := s) setting id path header i resumed
  rw [if_neg hown] at hindex
  refine tallies_iteration hindex (d := 0) (tallies_walkAll_elsewhere fun hin => hk ?_)
  exact ⟨List.mem_cons_of_mem _ hin.1, hin.2⟩

theorem tallies_iterations_elsewhere {id : Nat} {header : ForHeader} {items : List Value}
    {children : List Node} {i : Nat} {resumed : Option Value} {rest : List Value}
    (hk : ∀ j, i ≤ j → ¬ k.Inside (id :: idsAll children) (path ++ [j])) :
    Tallies k 0 s (iterations setting id path header items
      (fun inner => walkAll setting children inner) i resumed rest) := by
  induction rest generalizing i resumed s with
  | nil => exact Tallies.pure _
  | cons item rest ih =>
    refine (tallies_iteration_elsewhere (hk i (Nat.le_refl i))).bind (d := 0) fun _ _ t _ _ => ?_
    exact ih fun j hj => hk j (Nat.le_of_succ_le hj)

/-- An occasion lies in one iteration only. -/
theorem tallies_iterations_once {id : Nat} {header : ForHeader} {items : List Value}
    {children : List Node} {i : Nat} {resumed : Option Value} {rest : List Value}
    (hself : id ∉ idsAll children)
    (ih : ∀ inner s, Tallies k 1 s (walkAll setting children inner)) :
    Tallies k 1 s (iterations setting id path header items
      (fun inner => walkAll setting children inner) i resumed rest) := by
  induction rest generalizing i resumed s with
  | nil => exact (Tallies.pure _).mono (Nat.zero_le 1)
  | cons item rest ihrest =>
    -- `k` lies in this item's iteration: in its index key, or in the children below
    by_cases hk : k.Inside (id :: idsAll children) (path ++ [i])
    · refine Tallies.bind (c := 1) (d := 0) ?_ fun _ _ t _ _ => ?_
      · by_cases hown : k.node = id
        · have hindex : Tallies k 1 s (setIndex setting id path header i resumed) := by
            refine (tallies_setIndex setting id path header i resumed).mono ?_
            split
            · exact Nat.le_refl 1
            · exact Nat.zero_le 1
          exact tallies_iteration hindex (tallies_walkAll_elsewhere fun hin => hself (hown ▸ hin.1))
        · have hindex := tallies_setIndex (k := k) (s := s) setting id path header i resumed
          rw [if_neg fun hin => hown (List.mem_singleton.1 hin.1)] at hindex
          exact tallies_iteration hindex (ih _ _)
      · exact tallies_iterations_elsewhere fun j hj hin =>
          absurd (hk.eq_index hin) (Nat.ne_of_lt hj)
    -- `k` lies in a later iteration, if in any
    · refine (tallies_iteration_elsewhere hk).bind (d := 1) fun _ _ t _ _ => ?_
      exact ihrest

/-- A node evaluates what belongs to itself once, and what is inside of it once. -/
theorem own_or_inner (k : Occasion) (id : Nat) :
    (if k.node = id then 1 else 0) + (if k.node = id then 0 else 1) = 1 := by
  split
  · rfl
  · rfl

/-- An evaluation for a node counts on the occasions of the node. -/
theorem tallies_own {α : Type} {x : Walking α} {id : Nat} {sure still : Prop}
    (h : Tallies k 1 s x) (hsilent : Respects (silent id path sure still) x) :
    Tallies k (if k.node = id then 1 else 0) s x := by
  by_cases hk : k.node = id
  · rw [if_pos hk]
    exact h
  · rw [if_neg hk]
    exact Tallies.silent_elsewhere hsilent hk

/-- What is inside of a node counts on the other occasions. -/
theorem tallies_inner {n : Node} (hnodup : n.ids.Nodup) (ns : List Node)
    (hids : (idsAll ns).Sublist (idsAll n.childNodes))
    (ih : ∀ m ∈ ns, ∀ path s, Tallies k 1 s (m.walk setting path)) (path : IterationPath)
    (s : Statuses) :
    Tallies k (if k.node = n.id then 0 else 1) s (walkAll setting ns path) := by
  obtain ⟨hself, hchildren⟩ := List.nodup_cons.1 (ids_eq n ▸ hnodup)
  by_cases hk : k.node = n.id
  · rw [if_pos hk]
    exact tallies_walkAll_elsewhere fun hin => hself (hk ▸ hids.subset hin.1)
  · rw [if_neg hk]
    exact tallies_walkAll_once (hchildren.sublist hids) (fun m hm s => ih m hm path s) s

theorem walkElse_eq (setting : Setting) (otherwise : Option Node) (path : IterationPath) :
    walkElse setting otherwise path = walkAll setting otherwise.toList path := by
  cases otherwise with
  | none => rfl
  | some m => simp [walkElse, walkAll]

/-- The items of a loop are looked at in front of all of its iterations, and the key in each of
them. -/
theorem tallies_loop {info : NodeInfo} {header : ForHeader} {children : List Node}
    {otherwise : Option Node} (hnodup : (forBlock info header children otherwise).ids.Nodup)
    (ih : ∀ m ∈ children ++ otherwise.toList, ∀ path s, Tallies k 1 s (m.walk setting path))
    (path : IterationPath) (s : Statuses) :
    Tallies k 1 s (act setting (forBlock info header children otherwise) path) := by
  obtain ⟨hself, -⟩ := List.nodup_cons.1 (ids_eq _ ▸ hnodup)
  have hchildren : ∀ inner s, Tallies k (if k.node = info.id then 0 else 1) s
      (walkAll setting children inner) :=
    tallies_inner (n := forBlock info header children otherwise) hnodup children
      (by simp [childNodes])
      fun m hm => ih m (List.mem_append_left _ hm)
  have hotherwise : Tallies k (if k.node = info.id then 0 else 1) s
    (walkElse setting otherwise path) :=
    walkElse_eq setting otherwise path ▸ tallies_inner
      (n := forBlock info header children otherwise) hnodup otherwise.toList (by simp [childNodes])
      (fun m hm => ih m (List.mem_append_right _ hm)) path s
  have hone : (if k.node = info.id then 0 else 1) ≤ 1 := by
    split
    · exact Nat.zero_le 1
    · exact Nat.le_refl 1
  have hitems := tallies_takeItems (k := k) (s := s) setting info.id path header.iterable
  -- `k` is the iterable itself, which lies in no iteration and in no other part
  by_cases hk : k = ⟨info.id, path, header.iterable.span⟩
  · have hnode : k.node = info.id := hk ▸ rfl
    rw [if_pos hk] at hitems
    rw [if_pos hnode] at hotherwise
    refine tallies_forBlock hitems (d := 0) fun loop _ _ _ _ => ?_
    split
    · exact hotherwise
    · refine tallies_iterations_elsewhere fun j _ hin => ?_
      have hlength := hin.2.length_le
      rw [hk, List.length_append] at hlength
      exact Nat.not_succ_le_self _ hlength
  -- `k` is not the iterable, so only the part that is walked counts
  · rw [if_neg hk] at hitems
    refine tallies_forBlock hitems (d := 1) fun loop _ _ _ _ => ?_
    split
    · exact hotherwise.mono hone
    · refine tallies_iterations_once (fun hmem => hself ?_) fun inner s =>
        (hchildren inner s).mono hone
      rw [childNodes, idsAll_append]
      exact List.mem_append_left _ hmem

theorem tallies_act {n : Node} (hnodup : n.ids.Nodup) (hspans : n.DistinctSpans)
    (ih : ∀ m ∈ n.childNodes, ∀ path s, Tallies k 1 s (m.walk setting path)) (path : IterationPath)
    (s : Statuses) : Tallies k 1 s (n.act setting path) := by
  -- own expressions or those of the children: `k` names one node, so not both
  cases n with
  | fragment info children =>
    exact Tallies.inCopy (tallies_walkAll_once (List.nodup_cons.1 (ids_eq _ ▸ hnodup)).2
      (fun m hm s => ih m hm path s) s)
  | config info value raw => exact (Tallies.pure _).mono (Nat.zero_le 1)
  | comment info data => exact (Tallies.pure _).mono (Nat.zero_le 1)
  | text info data => exact (tallies_write info.id path data).mono (Nat.zero_le 1)
  | mustache info e => exact tallies_mustache setting info.id path e
  | ifBlock info condition elseIf children otherwise =>
    have hchildren := tallies_inner hnodup children (by simp [childNodes])
      (fun m hm => ih m (List.mem_append_left _ hm)) path s
    have hotherwise := tallies_inner hnodup otherwise.toList (by simp [childNodes])
      (fun m hm => ih m (List.mem_append_right _ hm)) path s
    refine own_or_inner k info.id ▸ tallies_ifBlock
      (tallies_own (tallies_takesBranch setting info.id path condition)
        (silent_takesBranch setting info.id path condition)) fun taken _ _ _ _ => ?_
    cases taken with
    | true => exact hchildren
    | false => exact walkElse_eq setting otherwise path ▸ hotherwise
  | forBlock info header children otherwise => exact tallies_loop hnodup ih path s
  | element info name attributes children =>
    have hchildren := tallies_inner hnodup children (List.Sublist.refl _) ih path s
    have hvalues : Tallies k 1 s (attributeValues setting info.id path attributes) :=
      (tallies_attributeValues setting info.id path attributes).mono
        (List.nodup_iff_count_le_one.1 hspans k.span)
    have hconfig : Tallies k 1 s (stepConfig setting info.id path attributes) :=
      (tallies_stepConfig setting info.id path attributes).mono
        (List.nodup_iff_count_le_one.1 hspans k.span)
    exact own_or_inner k info.id ▸ tallies_element
      (tallies_own hvalues (silent_values setting info.id path attributes))
      (tallies_own hconfig (quiet_stepConfig setting info.id path attributes)) hchildren

/-- One walk evaluates every expression at most once on every occasion. -/
theorem tallies_once {n : Node} (hnodup : n.ids.Nodup) (hspans : ∀ m ∈ n.nodes, m.DistinctSpans)
    (path : IterationPath) (s : Statuses) : Tallies k 1 s (n.walk setting path) := by
  induction n using Node.induct generalizing path s with
  | step n ih =>
    have hinner : (idsAll n.childNodes).Nodup := (List.nodup_cons.1 (ids_eq n ▸ hnodup)).2
    rw [walk_eq]
    refine Tallies.visiting fun w _ => tallies_act hnodup (hspans n (mem_nodes_self n)) ?_ path _
    exact fun m hm path s => ih m hm (hinner.sublist (ids_sublist_idsAll hm))
      (fun x hx => hspans x (mem_nodes_of_child hm hx)) path s

end Node

end PromptMarkup

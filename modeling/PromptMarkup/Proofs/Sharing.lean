/-
Scopes that share a stash.

A copy of a scope sees the same slots as the scope it was made of.  From then on each of them gets
names of its own, and all of them write to the one stash.

* `Views` — the scopes over one stash, in the order in which they were made;
* `Views.step`, `Views.run` — writes, copies and evaluations on any of them, in any order;
* `Views.Sound` — all names have slots, and a slot belongs to one name;
* `Views.read?_write` — who sees a write to a name;
* `Views.sharing` — no two names share a slot, and no name leaks into another scope.

Design notes: an evaluation is a step whether it fails or not, and by `Views.evaluate_agrees` it is
a run of writes, so that what is said of a write holds of every write that an evaluation makes.
-/
import PromptMarkup.Proofs.Writing

namespace PromptMarkup

/-- Scopes over one stash. -/
structure Views where
  stash : Stash
  scopes : List Pointers

namespace Views

/-- Something done to one of several scopes. -/
inductive Action
  | write (i : Nat) (name : String) (v : Value)
  | copy (i : Nat)
  | evaluate (i : Nat) (host : Host) (e : Expr)

/-- The only scope, with the given values. -/
def ofFields (parameters : Fields Value) : Views :=
  ⟨(Scope.ofFields parameters).stash, [(Scope.ofFields parameters).pointers]⟩

/-- A scope together with the stash. -/
def scope? (views : Views) (i : Nat) : Option Scope :=
  views.scopes[i]?.map (Scope.mk views.stash)

/-- What becomes of the scopes when one of them is replaced. -/
def replace (views : Views) (i : Nat) (s : Scope) : Views :=
  ⟨s.stash, views.scopes.set i s.pointers⟩

/-- Does something to one of the scopes; nothing happens if there is no such scope. -/
def step (views : Views) : Action → Views
  | .write i name v => (views.scope? i).elim views fun s => views.replace i (s.set name v)
  | .copy i =>
    (views.scope? i).elim views fun s => { views with scopes := views.scopes ++ [s.pointers] }
  | .evaluate i host e =>
    (views.scope? i).elim views fun s => views.replace i (Evaluation.runIn s (e.evaluate host)).2

/-- Does several things one after the other. -/
def run (views : Views) (actions : List Action) : Views :=
  actions.foldl step views

/-- The slot of a name in a scope. -/
def slot? (views : Views) (i : Nat) (name : String) : Option Nat :=
  views.scopes[i]?.bind fun p => p.get? name

/-- What is read under a name in a scope. -/
def read? (views : Views) (i : Nat) (name : String) : Option Value :=
  (views.scope? i).bind fun s => s.get? name

theorem read?_eq (views : Views) (i : Nat) (name : String) :
    views.read? i name = (views.slot? i name).bind fun slot => views.stash.slots[slot]? := by
  unfold read? slot? scope?
  cases views.scopes[i]? <;> rfl

/-! ### The invariant -/

/-- All names have slots, and a slot has one name in all scopes. -/
structure Sound (views : Views) : Prop where
  valid : ∀ p ∈ views.scopes, p.Below views.stash.slots.size
  apart : ∀ p ∈ views.scopes, ∀ q ∈ views.scopes, ∀ kv ∈ p, ∀ kv' ∈ q, kv.2 = kv'.2 → kv.1 = kv'.1

/-- Slots are only added, and every scope keeps the slots of its names. -/
structure Extends (views after : Views) : Prop where
  size : views.stash.slots.size ≤ after.stash.slots.size
  slots : ∀ i name slot, views.slot? i name = some slot → after.slot? i name = some slot

theorem Extends.refl (views : Views) : views.Extends views :=
  ⟨Nat.le_refl _, fun _ _ _ h => h⟩

theorem Extends.trans {views mid after : Views} (h : views.Extends mid) (h' : mid.Extends after) :
    views.Extends after :=
  ⟨Nat.le_trans h.size h'.size, fun i name slot hs => h'.slots i name slot (h.slots i name slot hs)⟩

namespace Sound

variable {views : Views} {i j : Nat} {name name' : String} {slot : Nat}

theorem slot_lt (h : views.Sound) (hslot : views.slot? i name = some slot) :
    slot < views.stash.slots.size := by
  obtain ⟨p, hp, hget⟩ := Option.bind_eq_some_iff.1 hslot
  exact h.valid p (List.mem_of_getElem? hp) _ (Fields.mem_of_get? hget)

theorem name_eq (h : views.Sound) (hslot : views.slot? i name = some slot)
    (hslot' : views.slot? j name' = some slot) : name = name' := by
  obtain ⟨p, hp, hget⟩ := Option.bind_eq_some_iff.1 hslot
  obtain ⟨q, hq, hget'⟩ := Option.bind_eq_some_iff.1 hslot'
  exact h.apart p (List.mem_of_getElem? hp) q (List.mem_of_getElem? hq) _
    (Fields.mem_of_get? hget) _
    (Fields.mem_of_get? hget') rfl

end Sound

/-! ### Writes -/

section Writes

variable {views : Views} {i : Nat} {name : String} {slot : Nat}

/-- A write to a name that is visible goes to its slot. -/
theorem step_write_of_slot (hslot : views.slot? i name = some slot) (v : Value) :
    views.step (.write i name v) =
      { views with stash.slots := views.stash.slots.setIfInBounds slot v } := by
  obtain ⟨p, hp, hget⟩ := Option.bind_eq_some_iff.1 hslot
  have hi : i < views.scopes.length := (List.getElem?_eq_some_iff.1 hp).1
  have hset : views.scopes.set i p = views.scopes := by
    rw [← (List.getElem?_eq_some_iff.1 hp).2, List.set_getElem_self]
  simp only [step, scope?, hp, Option.map_some, Option.elim_some, Scope.set, hget, replace, hset]

/-- A write to a name that is new in a scope gives it a slot of its own. -/
theorem step_write_of_new {p : Pointers} (hp : views.scopes[i]? = some p)
    (hnew : p.get? name = none) (v : Value) :
    views.step (.write i name v) =
      { stash := { views.stash with slots := views.stash.slots.push v }
        scopes := views.scopes.set i (p.put name views.stash.slots.size) } := by
  simp only [step, scope?, hp, Option.map_some, Option.elim_some, Scope.set, hnew, replace]

/-- No scope gets or loses names through a write to a name that is visible. -/
theorem slot?_write_of_slot (hslot : views.slot? i name = some slot) (v : Value) (j : Nat)
    (name' : String) : (views.step (.write i name v)).slot? j name' = views.slot? j name' := by
  rw [step_write_of_slot hslot]
  rfl

/-- A name that is new in a scope is visible in this scope only. -/
theorem slot?_write_of_new (hi : i < views.scopes.length) (hnew : views.slot? i name = none)
    (v : Value) (j : Nat) (name' : String) :
    (views.step (.write i name v)).slot? j name' =
      if j = i ∧ name' = name then some views.stash.slots.size else views.slot? j name' := by
  have hp : views.scopes[i]? = some views.scopes[i] := List.getElem?_eq_getElem hi
  have hget : (views.scopes[i]).get? name = none := by simpa [slot?, hp] using hnew
  rw [step_write_of_new hp hget]
  unfold slot?
  by_cases hj : j = i
  · subst hj
    by_cases hname : name' = name
    · simp [hi, Fields.get?_put, hname]
    · simp [hi, Fields.get?_put, hname, Ne.symm hname]
  · simp [List.getElem?_set_ne (Ne.symm hj), hj]

/-- A write to a name that is visible is seen under this name wherever it has the same slot, and
nowhere else. -/
theorem read?_write (h : views.Sound) (hslot : views.slot? i name = some slot) (v : Value) (j : Nat)
    (name' : String) :
    (views.step (.write i name v)).read? j name' =
      if views.slot? j name' = some slot then some v else views.read? j name' := by
  have hlt : slot < views.stash.slots.size := h.slot_lt hslot
  rw [read?_eq, slot?_write_of_slot hslot, step_write_of_slot hslot, read?_eq]
  cases hother : views.slot? j name' with
  | none => simp
  | some other =>
    by_cases heq : other = slot
    · subst heq
      simp [hlt]
    · simp [heq, Array.getElem?_setIfInBounds_ne (Ne.symm heq)]

/-- A name that is new in a scope is read there, and nothing else is read differently. -/
theorem read?_write_of_new (h : views.Sound) (hi : i < views.scopes.length)
    (hnew : views.slot? i name = none) (v : Value) (j : Nat) (name' : String) :
    (views.step (.write i name v)).read? j name' =
      if j = i ∧ name' = name then some v else views.read? j name' := by
  have hp : views.scopes[i]? = some views.scopes[i] := List.getElem?_eq_getElem hi
  have hget : (views.scopes[i]).get? name = none := by simpa [slot?, hp] using hnew
  have hslots : (views.step (.write i name v)).stash.slots = views.stash.slots.push v := by
    rw [step_write_of_new hp hget]
  rw [read?_eq, slot?_write_of_new hi hnew, hslots]
  split
  · simp
  · rw [read?_eq]
    cases hother : views.slot? j name' with
    | none => rfl
    | some other =>
      have hlt : other < views.stash.slots.size := h.slot_lt hother
      simp [Array.getElem?_push_lt hlt, hlt]

end Writes

/-! ### Evaluations -/

/-- The same slots and the same names in all scopes. -/
structure Agrees (views other : Views) : Prop where
  slots : views.stash.slots = other.stash.slots
  scopes : views.scopes = other.scopes

theorem Agrees.slot?_eq {views other : Views} (h : views.Agrees other) (i : Nat) (name : String) :
    views.slot? i name = other.slot? i name := by
  rw [slot?, slot?, h.scopes]

theorem Agrees.read?_eq {views other : Views} (h : views.Agrees other) (i : Nat) (name : String) :
    views.read? i name = other.read? i name := by
  rw [Views.read?_eq, Views.read?_eq, h.slot?_eq, h.slots]

theorem Agrees.sound {views other : Views} (h : views.Agrees other) (hs : views.Sound) :
    other.Sound := by
  constructor
  · rw [← h.scopes, ← h.slots]
    exact hs.valid
  · rw [← h.scopes]
    exact hs.apart

theorem Agrees.extends {views other : Views} (h : views.Agrees other) : views.Extends other :=
  ⟨Nat.le_of_eq (by rw [h.slots]), fun i name slot hslot => by rw [← h.slot?_eq, hslot]⟩

/-- Writes to one of the scopes. -/
def writes (i : Nat) (fields : Fields Value) : List Action :=
  fields.map fun w => .write i w.1 w.2

theorem scope?_replace {views : Views} {i : Nat} (hi : i < views.scopes.length) (s : Scope) :
    (views.replace i s).scope? i = some s := by
  simp [scope?, replace, hi]

theorem replace_replace (views : Views) (i : Nat) (s t : Scope) :
    (views.replace i s).replace i t = views.replace i t := by
  simp [replace]

theorem replace_self {views : Views} {i : Nat} {s : Scope} (h : views.scope? i = some s) :
    views.replace i s = views := by
  obtain ⟨p, hp, rfl⟩ := Option.map_eq_some_iff.1 h
  obtain ⟨hi, rfl⟩ := List.getElem?_eq_some_iff.1 hp
  simp only [replace, List.set_getElem_self]

theorem lt_of_scope? {views : Views} {i : Nat} {s : Scope} (h : views.scope? i = some s) :
    i < views.scopes.length := by
  obtain ⟨p, hp, -⟩ := Option.map_eq_some_iff.1 h
  exact (List.getElem?_eq_some_iff.1 hp).1

/-- Writes to one scope, one after the other. -/
theorem run_writes {views : Views} {i : Nat} {s : Scope} (h : views.scope? i = some s)
    (fields : Fields Value) : views.run (writes i fields) = views.replace i (s.written fields) := by
  induction fields generalizing views s with
  | nil => exact (replace_self h).symm
  | cons w rest ih =>
    have hstep : views.step (.write i w.1 w.2) = views.replace i (s.set w.1 w.2) := by
      rw [step, h, Option.elim_some]
    have hnext : (views.step (.write i w.1 w.2)).scope? i = some (s.set w.1 w.2) := by
      rw [hstep, scope?_replace (lt_of_scope? h)]
    calc views.run (writes i (w :: rest))
        = (views.step (.write i w.1 w.2)).run (writes i rest) := rfl
      _ = (views.step (.write i w.1 w.2)).replace i ((s.set w.1 w.2).written rest) := ih hnext
      _ = views.replace i (s.written (w :: rest)) := by
          rw [hstep, replace_replace, Scope.written_cons]

/-- An evaluation leaves the scopes as a run of writes does. -/
theorem evaluate_agrees (views : Views) (i : Nat) (host : Host) (e : Expr) :
    ∃ fields : Fields Value, (∀ w ∈ fields, w.1 ∈ e.names) ∧
      (views.run (writes i fields)).Agrees (views.step (.evaluate i host e)) := by
  cases hs : views.scope? i with
  | none =>
    refine ⟨[], fun _ hw => absurd hw List.not_mem_nil, ?_⟩
    simp only [step, hs, Option.elim_none]
    exact ⟨rfl, rfl⟩
  | some s =>
    obtain ⟨fields, hnames, hagrees⟩ := e.exists_written host s
    refine ⟨fields, hnames, ?_⟩
    rw [run_writes hs]
    simp only [step, hs, Option.elim_some]
    exact ⟨hagrees.slots, by simp only [replace, hagrees.pointers]⟩

/-! ### Steps -/

theorem Sound.write {views : Views} (h : views.Sound) (i : Nat) (name : String) (v : Value) :
    (views.step (.write i name v)).Sound := by
  cases hp : views.scopes[i]? with
  | none => simpa only [step, scope?, hp, Option.map_none, Option.elim_none] using h
  | some p =>
    cases hget : p.get? name with
    | some slot =>
      have hslot : views.slot? i name = some slot := by
        rw [slot?, hp, Option.bind_some, hget]
      rw [step_write_of_slot hslot]
      exact ⟨by simpa using h.valid, h.apart⟩
    | none =>
      rw [step_write_of_new hp hget]
      have hmem : p ∈ views.scopes := List.mem_of_getElem? hp
      -- every name of the new scopes has an old slot and is an old name there, or it is the new
      -- name
      have old : ∀ q ∈ views.scopes.set i (p.put name views.stash.slots.size), ∀ kv ∈ q,
          (∃ q' ∈ views.scopes, kv ∈ q') ∨ kv = (name, views.stash.slots.size) := by
        intro q hq kv hkv
        rcases List.mem_or_eq_of_mem_set hq with hq | rfl
        · exact .inl ⟨q, hq, hkv⟩
        · exact (Fields.mem_put hkv).imp_left fun hkv => ⟨p, hmem, hkv⟩
      constructor
      · intro q hq kv hkv
        simp only [Array.size_push]
        rcases old q hq kv hkv with ⟨q', hq', hkv'⟩ | rfl
        · exact Nat.lt_succ_of_lt (h.valid q' hq' kv hkv')
        · exact Nat.lt_succ_self _
      · intro q hq r hr kv hkv kv' hkv' heq
        rcases old q hq kv hkv with ⟨q', hq', hold⟩ | rfl
        · rcases old r hr kv' hkv' with ⟨r', hr', hold'⟩ | rfl
          · exact h.apart q' hq' r' hr' kv hold kv' hold' heq
          · exact absurd heq (Nat.ne_of_lt (h.valid q' hq' kv hold))
        · rcases old r hr kv' hkv' with ⟨r', hr', hold'⟩ | rfl
          · exact absurd heq.symm (Nat.ne_of_lt (h.valid r' hr' kv' hold'))
          · rfl

theorem Extends.write (views : Views) (i : Nat) (name : String) (v : Value) :
    views.Extends (views.step (.write i name v)) := by
  -- a copy that is not there takes no write
  cases hp : views.scopes[i]? with
  | none =>
    simp only [step, scope?, hp, Option.map_none, Option.elim_none]
    exact .refl views
  | some p =>
    have hi : i < views.scopes.length := (List.getElem?_eq_some_iff.1 hp).1
    -- the name has a slot, and only its value changes
    cases hslot : views.slot? i name with
    | some slot =>
      refine ⟨?_, fun j name' other hother => ?_⟩
      · rw [step_write_of_slot hslot]
        simp
      · rw [slot?_write_of_slot hslot, hother]
    | none =>
      -- the name is new, and takes a slot no copy holds
      refine ⟨?_, fun j name' other hother => ?_⟩
      · rw [step_write_of_new hp (by simpa [slot?, hp] using hslot)]
        simp
      · rw [slot?_write_of_new hi hslot, if_neg, hother]
        rintro ⟨rfl, rfl⟩
        simp [hslot] at hother

theorem Sound.writes {views : Views} (h : views.Sound) (i : Nat) (fields : Fields Value) :
    (views.run (Views.writes i fields)).Sound ∧ views.Extends
    (views.run (Views.writes i fields)) := by
  induction fields generalizing views with
  | nil => exact ⟨h, .refl views⟩
  | cons w rest ih =>
    obtain ⟨hsound, hext⟩ := ih (h.write i w.1 w.2)
    exact ⟨hsound, (Extends.write views i w.1 w.2).trans hext⟩

/-- A step keeps the invariant, the slots, and the names that are visible. -/
theorem Sound.step {views : Views} (h : views.Sound) (a : Action) :
    (views.step a).Sound ∧ views.Extends (views.step a) := by
  cases a with
  | write i name v => exact ⟨h.write i name v, Extends.write views i name v⟩
  | copy i =>
    cases hp : views.scopes[i]? with
    | none =>
      simp only [Views.step, scope?, hp, Option.map_none, Option.elim_none]
      exact ⟨h, .refl views⟩
    | some p =>
      simp only [Views.step, scope?, hp, Option.map_some, Option.elim_some]
      -- the new copy has the pointers of the old one, so it is valid and apart for the same reason
      have hmem : ∀ q ∈ views.scopes ++ [p], q ∈ views.scopes := by
        intro q hq
        rcases List.mem_append.1 hq with hq | hq
        · exact hq
        · exact List.mem_singleton.1 hq ▸ List.mem_of_getElem? hp
      refine ⟨⟨fun q hq => h.valid q (hmem q hq), fun q hq r hr =>
        h.apart q (hmem q hq) r (hmem r hr)⟩, Nat.le_refl _, fun j name slot hslot => ?_⟩
      obtain ⟨q, hq, hget⟩ := Option.bind_eq_some_iff.1 hslot
      have hj : j < views.scopes.length := (List.getElem?_eq_some_iff.1 hq).1
      rw [slot?, List.getElem?_append_left hj, hq, Option.bind_some, hget]
  | evaluate i host e =>
    obtain ⟨fields, -, hagrees⟩ := views.evaluate_agrees i host e
    obtain ⟨hsound, hext⟩ := h.writes i fields
    exact ⟨hagrees.sound hsound, hext.trans hagrees.extends⟩

/-- Any steps keep the invariant, the slots, and the names that are visible. -/
theorem Sound.run {views : Views} (h : views.Sound) (actions : List Action) :
    (views.run actions).Sound ∧ views.Extends (views.run actions) := by
  induction actions generalizing views with
  | nil => exact ⟨h, .refl views⟩
  | cons a rest ih =>
    obtain ⟨hsound, hext⟩ := h.step a
    obtain ⟨hsound', hext'⟩ := ih hsound
    exact ⟨hsound', hext.trans hext'⟩

/-- The values that a run starts with are writes to a scope without names. -/
theorem ofFields_eq (parameters : Fields Value) :
    ofFields parameters = (Views.mk .empty [[]]).run (writes 0 parameters) := by
  rw [run_writes (s := Scope.ofStash .empty) rfl]
  rfl

theorem sound_ofFields (parameters : Fields Value) : (ofFields parameters).Sound := by
  have h : (Views.mk .empty [[]]).Sound := by
    constructor
    · intro p hp kv hkv
      obtain rfl := List.mem_singleton.1 hp
      exact nomatch hkv
    · intro p hp q hq kv hkv
      obtain rfl := List.mem_singleton.1 hp
      exact nomatch hkv
  rw [ofFields_eq]
  exact (h.writes 0 parameters).1

/-! ### What is not changed -/

/-- A copy sees what the scope sees that it was made of. -/
theorem slot?_copy {views : Views} {i : Nat} (hi : i < views.scopes.length) (j : Nat)
    (name : String) :
    (views.step (.copy i)).slot? j name =
      if j = views.scopes.length then views.slot? i name else views.slot? j name := by
  have hp : views.scopes[i]? = some views.scopes[i] := List.getElem?_eq_getElem hi
  simp only [step, scope?, hp, Option.map_some, Option.elim_some, slot?]
  rcases Nat.lt_trichotomy j views.scopes.length with hj | rfl | hj
  · rw [List.getElem?_append_left hj, if_neg (by omega)]
  · simp
  · rw [List.getElem?_eq_none (by simp; omega), List.getElem?_eq_none (by omega), if_neg (by omega)]

theorem slot?_write_of_ne {views : Views} {i j : Nat} (hj : j ≠ i) (name : String) (v : Value)
    (name' : String) : (views.step (.write i name v)).slot? j name' = views.slot? j name' := by
  cases hs : views.scope? i with
  | none => simp only [step, hs, Option.elim_none]
  | some s => simp only [step, hs, Option.elim_some, replace, slot?, List.getElem?_set_ne hj.symm]

theorem step_write_of_le {views : Views} {i : Nat} (hi : views.scopes.length ≤ i) (name : String)
    (v : Value) : views.step (.write i name v) = views := by
  simp only [step, scope?, List.getElem?_eq_none hi, Option.map_none, Option.elim_none]

section Frames

variable {views : Views} {i j : Nat}

/-- A write to a scope changes what is read in another one only in a slot that both share. -/
theorem Sound.frame_write (h : views.Sound) (hj : j ≠ i) (name : String) (v : Value)
    (name' : String) :
    (views.step (.write i name v)).read? j name' = views.read? j name' ∨
      name' = name ∧ ∃ slot, views.slot? i name' = some slot ∧ views.slot? j name' = some slot := by
  rcases Nat.lt_or_ge i views.scopes.length with hi | hi
  · cases hslot : views.slot? i name with
    | some slot =>
      by_cases hshared : views.slot? j name' = some slot
      · obtain rfl : name' = name := h.name_eq hshared hslot
        exact .inr ⟨rfl, slot, hslot, hshared⟩
      · exact .inl (by rw [read?_write h hslot, if_neg hshared])
    | none => exact .inl (by rw [read?_write_of_new h hi hslot, if_neg fun hboth => hj hboth.1])
  · exact .inl (by rw [step_write_of_le hi])

/-- A write makes no scope share a slot with another one. -/
theorem Sound.shared_of_write (h : views.Sound) {name : String} {v : Value} {name' : String}
    {slot : Nat} (hi : (views.step (.write i name v)).slot? i name' = some slot)
    (hj : views.slot? j name' = some slot) : views.slot? i name' = some slot := by
  rcases Nat.lt_or_ge i views.scopes.length with hlt | hle
  · cases hslot : views.slot? i name with
    | some slot' => rwa [slot?_write_of_slot hslot] at hi
    | none =>
      rw [slot?_write_of_new hlt hslot] at hi
      split at hi
      · -- the slot of a new name is not one that another scope sees already
        exact absurd (Option.some.inj hi).symm (Nat.ne_of_lt (h.slot_lt hj))
      · exact hi
  · rwa [step_write_of_le hle] at hi

/-- Writes to a scope do not change what is visible in another one, and change what is read there
only under their names and in slots that both share. -/
theorem Sound.frame_writes (h : views.Sound) (hj : j ≠ i) {names : List String}
    {fields : Fields Value} (hnames : ∀ w ∈ fields, w.1 ∈ names) (name : String) :
    (views.run (Views.writes i fields)).slot? j name = views.slot? j name ∧
      ((views.run (Views.writes i fields)).read? j name = views.read? j name ∨
        name ∈ names ∧ ∃ slot, views.slot? i name = some slot ∧
        views.slot? j name = some slot) := by
  -- one write at a time: a slot shared after the first write was shared before it
  induction fields generalizing views with
  | nil => exact ⟨rfl, .inl rfl⟩
  | cons w rest ih =>
    obtain ⟨hslots, hread⟩ := ih (h.write i w.1 w.2) fun x hx =>
      hnames x (List.mem_cons_of_mem _ hx)
    have hsame : (views.step (.write i w.1 w.2)).slot? j name = views.slot? j name :=
      slot?_write_of_ne hj w.1 w.2 name
    refine ⟨hslots.trans hsame, ?_⟩
    rcases hread with hread | ⟨hmem, slot, hsloti, hslotj⟩
    · rcases h.frame_write hj w.1 w.2 name with hone | ⟨rfl, hshared⟩
      · exact .inl (hread.trans hone)
      · exact .inr ⟨hnames w List.mem_cons_self, hshared⟩
    · rw [hsame] at hslotj
      exact .inr ⟨hmem, slot, h.shared_of_write hsloti hslotj, hslotj⟩

end Frames

/-! ### All steps -/

/-- Whatever was written, copied and evaluated before: every name has a slot and no two names share
one; the stash never shrinks and a name keeps its slot; a write to a name that is visible is seen
under this name in the scopes that share its slot, and a name that is new in a scope in this scope
only; a copy sees what it was made of; and an evaluation, whether it fails or not, is a run of
writes to names of its expression. -/
theorem sharing (parameters : Fields Value) (actions : List Action) :
    let views := (ofFields parameters).run actions
    views.Sound ∧
    (∀ more, views.Extends (views.run more)) ∧
    (∀ i name slot v, views.slot? i name = some slot → ∀ j name',
      (views.slot? j name' = some slot → name' = name) ∧
      (views.step (.write i name v)).slot? j name' = views.slot? j name' ∧
      (views.step (.write i name v)).read? j name' =
        if views.slot? j name' = some slot then some v else views.read? j name') ∧
    (∀ i name v, i < views.scopes.length → views.slot? i name = none → ∀ j name',
      ((views.step (.write i name v)).slot? j name').isSome =
        ((views.slot? j name').isSome || decide (j = i ∧ name' = name)) ∧
      (views.step (.write i name v)).read? j name' =
        if j = i ∧ name' = name then some v else views.read? j name') ∧
    (∀ i, i < views.scopes.length → ∀ j name,
      (views.step (.copy i)).slot? j name =
        if j = views.scopes.length then views.slot? i name else views.slot? j name) ∧
    (∀ i host e,
      (∃ fields : Fields Value, (∀ w ∈ fields, w.1 ∈ e.names) ∧
        (views.run (writes i fields)).Agrees (views.step (.evaluate i host e))) ∧
      ∀ j name, j ≠ i →
        (views.step (.evaluate i host e)).slot? j name = views.slot? j name ∧
        ((views.step (.evaluate i host e)).read? j name = views.read? j name ∨
          name ∈ e.names ∧ ∃ slot, views.slot? i name = some slot ∧
          views.slot? j name = some slot)) := by
  intro views
  have hsound : views.Sound := ((sound_ofFields parameters).run actions).1
  refine ⟨hsound, fun more => (hsound.run more).2, fun i name slot v hslot j name' => ?_,
    fun i name v hi hnew j name' => ?_, fun i hi => slot?_copy hi, fun i host e => ?_⟩
  · exact ⟨fun hother => hsound.name_eq hother hslot, slot?_write_of_slot hslot v j name',
      read?_write hsound hslot v j name'⟩
  · refine ⟨?_, read?_write_of_new hsound hi hnew v j name'⟩
    rw [slot?_write_of_new hi hnew]
    split
    · next hnow => simp [hnow]
    · next hnow => simp [hnow]
  · obtain ⟨fields, hnames, hagrees⟩ := views.evaluate_agrees i host e
    refine ⟨⟨fields, hnames, hagrees⟩, fun j name hj => ?_⟩
    rw [← hagrees.slot?_eq, ← hagrees.read?_eq]
    exact hsound.frame_writes hj hnames name

/-- An inner scope writes a name of the outer one, and gives itself a name that the outer one does
not see. -/
theorem sharing_inner :
    let views := (ofFields [("x", .string "1")]).run [.copy 0]
    ((views.step (.write 1 "x" (.string "2"))).read? 0 "x" = some (.string "2") ∧
      (views.step (.write 1 "y" (.string "2"))).read? 1 "y" = some (.string "2")) ∧
      ((views.step (.write 1 "y" (.string "2"))).slot? 0 "y").isSome = false := by
  obtain ⟨-, -, hwrite, hnew, -⟩ := sharing [("x", .string "1")] [.copy 0]
  refine ⟨⟨?_, ?_⟩, ?_⟩
  · exact (hwrite 1 "x" 0 (.string "2") rfl 0 "x").2.2
  · exact (hnew 1 "y" (.string "2") (by decide) rfl 1 "y").2
  · exact (hnew 1 "y" (.string "2") (by decide) rfl 0 "y").1

end Views

end PromptMarkup

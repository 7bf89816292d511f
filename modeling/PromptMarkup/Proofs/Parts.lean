/-
Reading and writing parts of values.

A part of a value is reached by keys, the outermost first.

* `Value.part` — the part of a value under keys;
* `Value.Replaces` — what writing a part does to the object or the array that holds it;
* `Value.part_write`, `Value.part_write_apart` — what is read after a write, under the same keys and
  under keys that branch off;
* `Evaluation.writePath_lens` — the same for the variables of a scope, with what becomes of the
  arrays and the objects on the way.

Design notes: `Replaces` says once what a write does at one key.  Whatever is read afterwards
follows by induction on the keys, and the part that is written need not be looked into.  Reading
gives methods that are found on the way the numbers that come next; a write counts no lookups, so
that even these are the same before and behind it.
-/
import PromptMarkup.Proofs.Sharing

namespace PromptMarkup

open PromptMarkup.Computation

/-! ### Indices -/

theorem repr_of_index? {key : String} {i : Nat} (h : index? key = some i) : Nat.repr i = key := by
  unfold index? at h
  dsimp only at h
  split at h
  · exact nomatch h
  · split at h
    · next hcanonical =>
      obtain rfl := Option.some.inj h
      simp only [Bool.and_eq_true, beq_iff_eq] at hcanonical
      exact hcanonical.2
    · exact nomatch h

/-- A key that is an index is not the length of an array. -/
theorem ne_length_of_index? {key : String} {i : Nat} (h : index? key = some i) :
    (key == "length") = false := by
  refine beq_false_of_ne ?_
  rintro rfl
  have hnone : index? "length" = none := by decide +kernel
  exact nomatch h.symm.trans hnone

namespace Value

/-! ### Arrays that grow -/

theorem length_grow (items : List Value) (i : Nat) :
    (grow items i).length = max items.length (i + 1) := by
  rw [grow, List.length_append, List.length_replicate]
  omega

/-- An array that has grown up to an index holds the old items and undefined. -/
theorem getElem?_grow (items : List Value) (i j : Nat) (h : j < (grow items i).length) :
    (grow items i)[j]? = some ((items[j]?).getD undefined) := by
  by_cases hj : j < items.length
  · rw [grow, List.getElem?_append_left hj, List.getElem?_eq_getElem hj, Option.getD_some]
  · have hrest : j - items.length < i + 1 - items.length := by
      rw [length_grow] at h
      omega
    rw [grow, List.getElem?_append_right (by omega), List.getElem?_replicate, if_pos hrest,
      List.getElem?_eq_none (by omega), Option.getD_none]

/-- Growing an array changes nothing that is read from it. -/
theorem getD_grow (items : List Value) (i j : Nat) :
    ((grow items i)[j]?).getD undefined = (items[j]?).getD undefined := by
  by_cases hj : j < (grow items i).length
  · rw [getElem?_grow items i j hj, Option.getD_some]
  · rw [List.getElem?_eq_none (by omega)]
    rw [length_grow] at hj
    rw [List.getElem?_eq_none (by omega)]

/-! ### One key -/

/-- A value becomes another one by a part of it, the one under a key, being replaced. -/
inductive Replaces (key : String) (old new : Value) : Value → Value → Prop
  | object (fields : Fields Value) (hold : (fields.get? key).getD undefined = old) :
    Replaces key old new (object fields) (object (fields.put key new))
  | array (items : List Value) (i : Nat) (hindex : index? key = some i)
    (hold : (items[i]?).getD undefined = old) :
    Replaces key old new (array items) (array ((grow items i).set i new))

/-- A write that succeeds replaces the part under the first key, in which it writes under the other
keys. -/
theorem replaces_of_write {key : String} {keys : List String} {v new w : Value}
    (h : v.write (key :: keys) new = .ok w) :
    ∃ old part, old.write keys new = .ok part ∧ Replaces key old part v w := by
  have hmap : ∀ {x : Except Fault Value} {f : Value → Value}, x.map f = .ok w →
    ∃ part, x = .ok part ∧ f part = w := by
    intro x f hx
    cases x with
    | error fault => cases hx
    | ok part => exact ⟨part, rfl, Except.ok.inj hx⟩
  -- only objects and arrays have parts to write into
  cases v with
  | object fields =>
    obtain ⟨part, hpart, rfl⟩ := hmap h
    exact ⟨_, part, hpart, .object fields rfl⟩
  | array items =>
    rw [write] at h
    split at h
    · cases h
    · next i hindex =>
      split at h
      · cases h
      · obtain ⟨part, hpart, rfl⟩ := hmap h
        exact ⟨_, part, hpart, .array items i hindex rfl⟩
  | undefined | null | boolean b | number x | string s | function i f => cases h

namespace Replaces

variable {key other : String} {old new v w : Value}

theorem property_old (h : Replaces key old new v w) (identity : Identity) :
    v.property identity key = .ok old := by
  cases h with
  | object fields hold => rw [property, hold]
  | array items i hindex hold =>
    rw [property, ne_length_of_index? hindex]
    simp only [Bool.false_eq_true, if_false, hindex, hold]

theorem property_new (h : Replaces key old new v w) (identity : Identity) :
    w.property identity key = .ok new := by
  cases h with
  | object fields hold => rw [property, Fields.get?_put, if_pos rfl, Option.getD_some]
  | array items i hindex hold =>
    have hlt : i < (grow items i).length := by
      rw [length_grow]
      omega
    rw [property, ne_length_of_index? hindex]
    simp only [Bool.false_eq_true, if_false, hindex]
    rw [List.getElem?_set_self hlt, Option.getD_some]

/-- Nothing else is read differently, except for what is no item of an array. -/
theorem property_other (h : Replaces key old new v w) (hne : other ≠ key)
    (hindex : ∀ items, v = .array items → (index? other).isSome = true) (identity : Identity) :
    w.property identity other = v.property identity other := by
  cases h with
  | object fields hold => rw [property, property, Fields.get?_put, if_neg (Ne.symm hne)]
  | array items i hi hold =>
    obtain ⟨j, hj⟩ := Option.isSome_iff_exists.1 (hindex items rfl)
    -- two keys that are indices are two indices
    have hij : i ≠ j := by
      rintro rfl
      exact hne ((repr_of_index? hj).symm.trans (repr_of_index? hi))
    rw [property, property, ne_length_of_index? hj]
    simp only [Bool.false_eq_true, if_false, hj]
    rw [List.getElem?_set_ne hij, getD_grow]

end Replaces

/-! ### Several keys -/

/-- The part of a value under keys.  Functions that are found on the way get the numbers from `made`
on. -/
def part (made : Nat) (v : Value) : List String → Except Fault Value
  | [] => .ok v
  | key :: keys => (v.property (.made made) key).bind fun w => part (made + 1) w keys

/-- Keys that lead through objects and the items of arrays: where they come to an array, they go on
with an index. -/
def Addresses : Value → List String → Prop
  | _, [] => True
  | .object fields, key :: keys => Addresses ((Fields.get? fields key).getD undefined) keys
  | .array items, key :: keys =>
    ∃ i, index? key = some i ∧ Addresses ((items[i]?).getD undefined) keys
  | _, _ :: _ => True

/-- The way that keys lead goes on behind a key with a part. -/
theorem Addresses.tail {key : String} {keys : List String} {old new v w : Value}
    (h : v.Addresses (key :: keys))
    (hreplaces : Replaces key old new v w) : old.Addresses keys := by
  cases hreplaces with
  | object fields hold =>
    rw [← hold]
    exact h
  | array items i hindex hold =>
    obtain ⟨j, hj, htail⟩ := h
    obtain rfl := Option.some.inj (hj.symm.trans hindex)
    rw [← hold]
    exact htail

theorem Addresses.index {key : String} {keys : List String} {v : Value}
    (h : v.Addresses (key :: keys)) :
    ∀ items, v = .array items → (index? key).isSome = true := by
  rintro items rfl
  obtain ⟨i, hi, -⟩ := h
  rw [hi]
  rfl

/-- What was written is read again. -/
theorem part_write {keys : List String} {v new w : Value} (h : v.write keys new = .ok w)
    (made : Nat) :
    w.part made keys = .ok new := by
  induction keys generalizing v w made with
  | nil =>
    rw [write] at h
    obtain rfl := Except.ok.inj h
    rfl
  | cons key keys ih =>
    obtain ⟨old, part, hpart, hreplaces⟩ := replaces_of_write h
    rw [Value.part, hreplaces.property_new]
    exact ih hpart (made + 1)

/-- What keys lead to that branch off is not changed by a write. -/
theorem part_write_apart {keys others : List String} {v new w : Value}
    (h : v.write keys new = .ok w)
    (haddresses : v.Addresses others) (hlonger : ¬others <+: keys) (hshorter : ¬keys <+: others)
    (made : Nat) :
    w.part made others = v.part made others := by
  induction keys generalizing others v w made with
  | nil => exact absurd List.nil_prefix hshorter
  | cons key keys ih =>
    cases others with
    | nil => exact absurd List.nil_prefix hlonger
    | cons other others =>
      obtain ⟨old, part, hpart, hreplaces⟩ := replaces_of_write h
      by_cases hkey : other = key
      · -- the branch is further inside
        subst hkey
        rw [List.cons_prefix_cons] at hlonger hshorter
        rw [Value.part, Value.part, hreplaces.property_new, hreplaces.property_old]
        exact ih hpart (haddresses.tail hreplaces) (fun hp => hlonger ⟨rfl, hp⟩)
          (fun hp => hshorter ⟨rfl, hp⟩) (made + 1)
      · rw [Value.part, Value.part, hreplaces.property_other hkey haddresses.index]

/-- On its way a write replaces, in what some of the keys lead to, the part under the next one. -/
theorem replaces_write {front back : List String} {key : String} {v new w c : Value}
    (h : v.write (front ++ key :: back) new = .ok w) (made : Nat) (hc : v.part made front = .ok c) :
    ∃ c' old part, w.part made front = .ok c' ∧ Replaces key old part c c' := by
  induction front generalizing v w made with
  | nil =>
    obtain rfl := Except.ok.inj hc
    obtain ⟨old, part, -, hreplaces⟩ := replaces_of_write h
    exact ⟨w, old, part, rfl, hreplaces⟩
  | cons first front ih =>
    obtain ⟨old, part, hpart, hreplaces⟩ := replaces_of_write h
    rw [Value.part, hreplaces.property_old] at hc
    rw [Value.part, hreplaces.property_new]
    exact ih hpart (made + 1) hc

end Value

/-! ### Variables -/

namespace Evaluation

/-- The part of a variable under keys. -/
def readPart (name : String) (keys : List String) (span : Span) : Evaluation Value := do
  readPath span keys (← valueOf name)

/-- The problem that a fault at a span is. -/
def problemAt (span : Span) (fault : Fault) : Problem :=
  { fault, start := span.start, stop := span.stop }

/-- What is read depends on a scope only by the value and by the number of the next lookup. -/
theorem fst_readPath (s : Scope) (span : Span) (keys : List String) (v : Value) :
    (runIn s (readPath span keys v)).1 =
      (v.part s.stash.lookups keys).mapError (problemAt span) := by
  induction keys generalizing s v with
  | nil => rfl
  | cons key keys ih =>
    have hlookup : runIn s (readPath span (key :: keys) v) =
        runIn { s with stash.lookups := s.stash.lookups + 1 }
          (ofResult span (v.property (.made s.stash.lookups) key) >>= readPath span keys) := rfl
    rw [hlookup, Value.part]
    cases v.property (.made s.stash.lookups) key with
    | error fault => rfl
    | ok w => exact ih _ w

theorem fst_readPart (s : Scope) (name : String) (keys : List String) (span : Span) :
    (runIn s (readPart name keys span)).1 =
      (((s.get? name).getD .undefined).part s.stash.lookups keys).mapError (problemAt span) :=
  fst_readPath s span keys _

theorem mapError_eq_ok {span : Span} {x : Except Fault Value} {v : Value} :
    x.mapError (problemAt span) = .ok v ↔ x = .ok v := by
  cases x with
  | error fault =>
    constructor
    · intro h
      exact nomatch h
    · intro h
      exact nomatch h
  | ok w =>
    constructor
    · intro h
      exact congrArg _ (Except.ok.inj h)
    · intro h
      exact congrArg _ (Except.ok.inj h)

/-- A write replaces the value of a variable, or leaves the scope alone. -/
theorem runIn_writePath (s : Scope) (name : String) (keys : List String) (v : Value) (span : Span) :
    runIn s (writePath name keys v span) =
      match ((s.get? name).getD .undefined).write keys v with
      | .ok w => (.ok (), s.set name w)
      | .error fault => (.error (problemAt span fault), s) := by
  unfold runIn writePath
  simp only [runFrom_bind, valueOf, runFrom_look]
  cases ((s.get? name).getD .undefined).write keys v <;> rfl

theorem runIn_writePath_eq_ok {s t : Scope} {name : String} {keys : List String} {v : Value}
    {span : Span} (h : runIn s (writePath name keys v span) = (.ok (), t)) :
    ∃ w, ((s.get? name).getD .undefined).write keys v = .ok w ∧ t = s.set name w := by
  rw [runIn_writePath] at h
  split at h
  · next w hw => exact ⟨w, hw, (Prod.mk.inj h).2.symm⟩
  · exact nomatch (Prod.mk.inj h).1

end Evaluation

namespace Scope

/-- All names that are visible have slots, and a slot belongs to one name. -/
def Sound (s : Scope) : Prop :=
  (Views.mk s.stash [s.pointers]).Sound

/-- Every one of several scopes over a stash is such a scope. -/
theorem sound_of_views {views : Views} (h : views.Sound) {i : Nat} {s : Scope}
    (hs : views.scope? i = some s) :
    s.Sound := by
  obtain ⟨p, hp, rfl⟩ := Option.map_eq_some_iff.1 hs
  have hmem : p ∈ views.scopes := List.mem_of_getElem? hp
  constructor
  · intro q hq
    obtain rfl := List.mem_singleton.1 hq
    exact h.valid _ hmem
  · intro q hq r hr
    obtain rfl := List.mem_singleton.1 hq
    obtain rfl := List.mem_singleton.1 hr
    exact h.apart _ hmem _ hmem

theorem lookups_set (s : Scope) (name : String) (v : Value) :
    (s.set name v).stash.lookups = s.stash.lookups := by
  unfold set
  split <;> rfl

/-- A write to a name that is visible is read under this name, and under no other. -/
theorem get?_set_of_sound {s : Scope} {name : String} (hs : s.Sound) (hsees : s.sees name = true)
    (v : Value)
    (other : String) :
    (s.set name v).get? other = if other = name then some v else s.get? other := by
  obtain ⟨slot, hslot⟩ := Option.isSome_iff_exists.1 hsees
  have hslot' : (Views.mk s.stash [s.pointers]).slot? 0 name = some slot := hslot
  have hwrite := Views.read?_write hs hslot' v 0 other
  rw [Views.step_write_of_slot hslot'] at hwrite
  have hset : s.set name v = { s with stash.slots := s.stash.slots.setIfInBounds slot v } := by
    rw [set, hslot]
  rw [hset]
  refine hwrite.trans ?_
  by_cases hother : other = name
  · rw [hother, if_pos hslot', if_pos rfl]
  · rw [if_neg (fun hsame => hother (hs.name_eq hsame hslot')), if_neg hother]
    rfl

end Scope

namespace Evaluation

open Value (Replaces)

/-- Writing a part of a variable keeps the laws of a lens.  If it fails, the scope is as it was.  If
it succeeds, the part that was written is read again under its keys; what is read under keys that
branch off, or from another variable, is what was read before; an array on the way has its old
items, and where it grew up to the index that was written, the new ones are undefined; and an object
on the way has its keys in the old order, a new one at the end. -/
theorem writePath_lens {s : Scope} {name : String} (hs : s.Sound) (hsees : s.sees name = true)
    (keys : List String) (v : Value) (span : Span) :
    (∀ p t, runIn s (writePath name keys v span) = (.error p, t) → t = s) ∧
    ∀ t, runIn s (writePath name keys v span) = (.ok (), t) →
      (∀ span', (runIn t (readPart name keys span')).1 = .ok v) ∧
      (∀ others span', ((s.get? name).getD .undefined).Addresses others → ¬others <+: keys →
        ¬keys <+: others →
        (runIn t (readPart name others span')).1 = (runIn s (readPart name others span')).1) ∧
      (∀ other others span', other ≠ name →
        (runIn t (readPart other others span')).1 = (runIn s (readPart other others span')).1) ∧
      (∀ front key back span' items, keys = front ++ key :: back →
        (runIn s (readPart name front span')).1 = .ok (.array items) →
        ∃ i items', index? key = some i ∧
          (runIn t (readPart name front span')).1 = .ok (.array items') ∧
          items'.length = max items.length (i + 1) ∧
          ∀ j < items'.length, j ≠ i → items'[j]? = some ((items[j]?).getD .undefined)) ∧
      ∀ front key back span' fields, keys = front ++ key :: back →
        (runIn s (readPart name front span')).1 = .ok (.object fields) →
        ∃ fields', (runIn t (readPart name front span')).1 = .ok (.object fields') ∧
          Fields.keys fields' =
            if key ∈ Fields.keys fields then Fields.keys fields
              else Fields.keys fields ++ [key] := by
  constructor
  · intro p t h
    rw [runIn_writePath] at h
    split at h
    · exact nomatch (Prod.mk.inj h).1
    · exact (Prod.mk.inj h).2.symm
  · intro t h
    obtain ⟨w, hw, rfl⟩ := runIn_writePath_eq_ok h
    have hself : ((s.set name w).get? name).getD .undefined = w := by
      rw [Scope.get?_set_of_sound hs hsees, if_pos rfl, Option.getD_some]
    -- what some of the keys led to holds the part under the next one
    have hway : ∀ front key back span' c, keys = front ++ key :: back →
        (runIn s (readPart name front span')).1 = .ok c →
        ∃ c' old part, (runIn (s.set name w) (readPart name front span')).1 = .ok c' ∧
        Replaces key old part c c' := by
      rintro front key back span' c rfl hc
      rw [fst_readPart, mapError_eq_ok] at hc
      obtain ⟨c', old, part, hc', hreplaces⟩ := Value.replaces_write hw s.stash.lookups hc
      refine ⟨c', old, part, ?_, hreplaces⟩
      rw [fst_readPart, hself, Scope.lookups_set, mapError_eq_ok]
      exact hc'
    refine ⟨?_, ?_, ?_, ?_, ?_⟩
    · intro span'
      rw [fst_readPart, hself, mapError_eq_ok]
      exact Value.part_write hw _
    · intro others span' haddresses hlonger hshorter
      rw [fst_readPart, fst_readPart, hself, Scope.lookups_set,
        Value.part_write_apart hw haddresses hlonger hshorter]
    · intro other others span' hother
      rw [fst_readPart, fst_readPart, Scope.get?_set_of_sound hs hsees, if_neg hother,
        Scope.lookups_set]
    · intro front key back span' items hkeys hitems
      obtain ⟨c', old, part, hc', hreplaces⟩ := hway front key back span' _ hkeys hitems
      cases hreplaces with
      | array _ i hindex _ =>
        refine ⟨i, _, hindex, hc', ?_, ?_⟩
        · rw [List.length_set, Value.length_grow]
        · intro j hj hne
          rw [List.length_set] at hj
          rw [List.getElem?_set_ne (Ne.symm hne), Value.getElem?_grow items i j hj]
    · intro front key back span' fields hkeys hfields
      obtain ⟨c', old, part, hc', hreplaces⟩ := hway front key back span' _ hkeys hfields
      cases hreplaces with
      | object _ _ => exact ⟨_, hc', Fields.keys_put fields key part⟩

/-- The third item of a list of one is written, in an object beside another variable. -/
theorem writePath_lens_growing :
    let s := Scope.ofFields [("o", .object [("list", .array [.string "x"])]), ("n", .null)]
    s.Sound ∧ s.sees "o" = true ∧
    ∃ t, runIn s (writePath "o" ["list", "2"] (.string "y") ⟨0, 0⟩) = (.ok (), t) ∧
      (runIn t (readPart "o" ["list", "2"] ⟨0, 0⟩)).1 = .ok (.string "y") ∧
      (runIn t (readPart "o" ["list", "0"] ⟨0, 0⟩)).1 =
        (runIn s (readPart "o" ["list", "0"] ⟨0, 0⟩)).1 ∧
      (runIn t (readPart "n" [] ⟨0, 0⟩)).1 = (runIn s (readPart "n" [] ⟨0, 0⟩)).1 ∧
      ∃ i items', index? "2" = some i ∧
        (runIn t (readPart "o" ["list"] ⟨0, 0⟩)).1 = .ok (.array items') ∧
        items'.length = max 1 (i + 1) ∧
        ∀ j < items'.length, j ≠ i → items'[j]? = some (([.string "x"][j]?).getD .undefined) := by
  intro s
  have hs : (Views.ofFields [("o", .object [("list", .array [.string "x"])]), ("n", .null)]).scope?
    0 = some s := rfl
  have hsound : s.Sound := Scope.sound_of_views (Views.sound_ofFields _) hs
  have hsees : s.sees "o" = true := rfl
  obtain ⟨-, hlens⟩ := writePath_lens hsound hsees ["list", "2"] (.string "y") ⟨0, 0⟩
  have hrun : runIn s (writePath "o" ["list", "2"] (.string "y") ⟨0, 0⟩) = (.ok (), _) := rfl
  -- the path that is written and the one that is read part at the index
  obtain ⟨hback, hapart, hother, harray, -⟩ := hlens _ hrun
  have haddresses : ((s.get? "o").getD .undefined).Addresses ["list", "0"] :=
    ⟨0, by decide +kernel, trivial⟩
  refine ⟨hsound, hsees, _, hrun, hback _, ?_, hother "n" [] _ (by decide), ?_⟩
  · exact hapart ["list", "0"] _ haddresses (by decide) (by decide)
  · exact harray ["list"] "2" [] _ [.string "x"] rfl rfl

end Evaluation

end PromptMarkup

/-
The equalities of values.

* `Value.inductParts` — induction on the items and fields of a value;
* `Value.strictEquals_array`, `Value.strictEquals_object` — arrays are equal place by place, objects
  key by key;
* `Value.strictEquals_comm`, `Value.strictEquals_trans`, `Value.strictEquals_self` — strict equality
  is symmetric and transitive, and a value equals itself unless the number that is not a number
  occurs in it;
* `Value.looseEquals_comm`, `Value.looseEquals_of_strictEquals` — equality with conversions is
  symmetric, and includes strict equality;
* `Value.compares_iff` — converting one operand after the other comes to an end, with the answer of
  `looseEquals`;
* `Value.equalities` — all of this together.

Design notes: objects are lists of fields, and a list of fields is a mapping if no key occurs twice
(`Value.Formed`).  Without that, two objects may hold the same fields from one side only.
-/
import Mathlib
import PromptMarkup.Proofs.Evaluating

namespace PromptMarkup

namespace Fields

variable {α : Type} {fields : Fields α} {key : String} {v : α}

/-- A field is found under its key, if no other field has this key. -/
theorem get?_of_mem (hkeys : fields.keys.Nodup) (h : (key, v) ∈ fields) :
    fields.get? key = some v := by
  induction fields with
  | nil => exact nomatch h
  | cons field rest ih =>
    obtain ⟨k, w⟩ := field
    obtain ⟨hk, hrest⟩ := List.nodup_cons.1 hkeys
    rw [get?]
    rcases List.mem_cons.1 h with heq | h
    · obtain ⟨rfl, rfl⟩ := Prod.mk.inj heq
      exact if_pos rfl
    · have hkey : key ∈ Fields.keys rest := List.mem_map_of_mem h
      have hne : k ≠ key := fun heq => hk (heq ▸ hkey)
      rw [if_neg hne]
      exact ih hrest h

end Fields

namespace Value

variable {a b c : Value}

/-! ### Values and their parts -/

/-- Induction on the parts of a value; a function has none. -/
theorem inductParts {motive : Value → Prop} (single : ∀ v : Value, v.isComposite = false → motive v)
    (array : ∀ items, (∀ v ∈ items, motive v) → motive (array items))
    (object : ∀ fields, (∀ field ∈ fields, motive field.2) → motive (object fields)) : ∀ v, motive v
  | .array items => array items fun v _ => inductParts single array object v
  | .object fields => object fields fun field _ => inductParts single array object field.2
  | undefined => single _ rfl
  | null => single _ rfl
  | boolean _ => single _ rfl
  | number _ => single _ rfl
  | string _ => single _ rfl
  | function _ _ => single _ rfl
termination_by v => sizeOf v
decreasing_by
  · have := List.sizeOf_lt_of_mem ‹_›
    simp
    omega
  · have := List.sizeOf_lt_of_mem ‹_›
    cases field
    simp at *
    omega

/-- No object in the value has two fields with one key. -/
inductive Formed : Value → Prop
  | single {v : Value} (h : v.isComposite = false) : Formed v
  | array {items : List Value} (h : ∀ v ∈ items, Formed v) : Formed (array items)
  | object {fields : Fields Value} (keys : fields.keys.Nodup)
    (h : ∀ field ∈ fields, Formed field.2) : Formed (object fields)

/-- The number that is not a number occurs in the value. -/
inductive HoldsNaN : Value → Prop
  | number {x : Float} (h : x.isNaN = true) : HoldsNaN (number x)
  | item {items : List Value} {v : Value} (h : v ∈ items) (hv : HoldsNaN v) : HoldsNaN (array items)
  | field {fields : Fields Value} {field : String × Value} (h : field ∈ fields)
    (hv : HoldsNaN field.2) :
    HoldsNaN (object fields)

theorem Formed.item {items : List Value} (h : Formed (.array items)) : ∀ v ∈ items, Formed v := by
  cases h with
  | single h => cases h
  | array h => exact h

theorem Formed.fields {fields : Fields Value} (h : Formed (.object fields)) :
    fields.keys.Nodup ∧ ∀ field ∈ fields, Formed field.2 := by
  cases h with
  | single h => cases h
  | object keys h => exact ⟨keys, h⟩

/-! ### Strict equality -/

theorem itemsEqual_iff {as bs : List Value} :
    itemsEqual as bs = true ↔ ∀ (i : Nat) v w, as[i]? = some v → bs[i]? = some w →
    strictEquals v w = true := by
  induction as generalizing bs with
  | nil => exact ⟨fun _ i v w hv => (nomatch hv), fun _ => rfl⟩
  | cons v as ih =>
    cases bs with
    | nil => exact ⟨fun _ i v w _ hw => (nomatch hw), fun _ => rfl⟩
    | cons w bs =>
      rw [itemsEqual, Bool.and_eq_true, ih]
      refine ⟨fun h i => ?_, fun h => ⟨h 0 v w rfl rfl, fun i => h (i + 1)⟩⟩
      cases i with
      | zero =>
        intro v' w' hv hw
        obtain rfl := Option.some.inj hv
        obtain rfl := Option.some.inj hw
        exact h.1
      | succ i => exact h.2 i

/-- Arrays are equal if they have as many items, and the items at the same place are equal. -/
theorem strictEquals_array {as bs : List Value} :
    strictEquals (array as) (array bs) = true ↔ as.length = bs.length ∧
      ∀ (i : Nat) v w, as[i]? = some v → bs[i]? = some w → strictEquals v w = true := by
  rw [strictEquals, Bool.and_eq_true, beq_iff_eq, itemsEqual_iff]

theorem fieldsEqual_iff {as bs : Fields Value} :
    fieldsEqual as bs = true ↔ ∀ field ∈ as, ∃ w, bs.get? field.1 = some w ∧
    strictEquals field.2 w = true := by
  induction as with
  | nil => simp [fieldsEqual]
  | cons field as ih =>
    obtain ⟨key, v⟩ := field
    rw [fieldsEqual, Bool.and_eq_true, ih, List.forall_mem_cons]
    refine and_congr_left fun _ => ?_
    cases bs.get? key with
    | none => simp
    | some w => simp

/-- Objects are equal if they have as many fields, and each key of the one has an equal value in the
other. -/
theorem strictEquals_object {as bs : Fields Value} :
    strictEquals (object as) (object bs) = true ↔ as.length = bs.length ∧
      ∀ field ∈ as, ∃ w, bs.get? field.1 = some w ∧ strictEquals field.2 w = true := by
  rw [strictEquals, Bool.and_eq_true, beq_iff_eq, fieldsEqual_iff]

/-- A value that has no items and no fields equals itself unless it is not a number. -/
theorem strictEquals_self_single (h : a.isComposite = false) :
    strictEquals a a = true ↔ ¬ HoldsNaN a := by
  cases a with
  | number x =>
    have hself : (x == x) = !x.isNaN := by
      rw [Float.isNaN_eq_decide_eq_nan, Bool.eq_iff_iff]
      simp
    rw [strictEquals, hself, Bool.not_eq_true']
    refine ⟨fun hx hnan => ?_, fun hnan => Bool.eq_false_iff.2 fun hx => hnan (.number hx)⟩
    cases hnan with
    | number hx' => exact absurd (hx.symm.trans hx') Bool.false_ne_true
  | array items => cases h
  | object fields => cases h
  | _ => exact ⟨fun _ => nofun, fun _ => by simp [strictEquals]⟩

/-- A value equals itself unless the number that is not a number occurs in it. -/
theorem strictEquals_self (ha : a.Formed) : strictEquals a a = true ↔ ¬ HoldsNaN a := by
  induction a using inductParts with
  | single v h => exact strictEquals_self_single h
  | array items ih =>
    have hitems : strictEquals (array items) (array items) = true ↔
      ∀ v ∈ items, strictEquals v v = true := by
      rw [strictEquals_array]
      refine ⟨fun h v hv => ?_, fun h => ⟨rfl, fun i v w hv hw => ?_⟩⟩
      -- position by position, an element is compared with itself
      · obtain ⟨i, hi⟩ := List.mem_iff_getElem?.1 hv
        exact h.2 i v v hi hi
      · obtain rfl := Option.some.inj (hv.symm.trans hw)
        exact h v (List.mem_of_getElem? hv)
    rw [hitems]
    constructor
    · intro h hnan
      cases hnan with
      | item hv hnan => exact (ih _ hv (ha.item _ hv)).1 (h _ hv) hnan
    · exact fun h v hv => (ih v hv (ha.item v hv)).2 fun hnan => h (.item hv hnan)
  | object fields ih =>
    obtain ⟨hkeys, hfields⟩ := ha.fields
    have hself : strictEquals (object fields) (object fields) = true ↔
        ∀ field ∈ fields, strictEquals field.2 field.2 = true := by
      rw [strictEquals_object]
      -- no two fields have one key, so that a field is found under its key
      refine ⟨fun h field hfield => ?_, fun h => ⟨rfl, fun field hfield => ?_⟩⟩
      · obtain ⟨w, hw, heq⟩ := h.2 field hfield
        obtain rfl := Option.some.inj ((Fields.get?_of_mem hkeys hfield).symm.trans hw)
        exact heq
      · exact ⟨field.2, Fields.get?_of_mem hkeys hfield, h field hfield⟩
    rw [hself]
    constructor
    · intro h hnan
      cases hnan with
      | field hv hnan => exact (ih _ hv (hfields _ hv)).1 (h _ hv) hnan
    · exact fun h field hv => (ih field hv (hfields field hv)).2 fun hnan => h (.field hv hnan)

/-- Two objects with as many fields, each key of the first being one of the second, have the same
keys. -/
theorem keys_subset {as bs : Fields Value} (hkeys : as.keys.Nodup) (hlength : as.length = bs.length)
    (h : as.keys ⊆ bs.keys) : bs.keys ⊆ as.keys := by
  have hle : bs.keys.length ≤ as.keys.length := by
    rw [Fields.keys, Fields.keys, List.length_map, List.length_map, hlength]
  exact ((hkeys.subperm h).perm_of_length_le hle).symm.subset

theorem strictEquals_comm_single (h : a.isComposite = false) :
    strictEquals a b = strictEquals b a := by
  cases a with
  | undefined => cases b <;> rfl
  | null => cases b <;> rfl
  | boolean x =>
    cases b with
    | boolean y => exact BEq.comm
    | _ => rfl
  | number x =>
    cases b with
    | number y => exact BEq.comm
    | _ => rfl
  | string s =>
    cases b with
    | string t => exact BEq.comm
    | _ => rfl
  | array items => cases h
  | object fields => cases h
  | function i f =>
    cases b with
    | function j g => exact BEq.comm
    | _ => rfl

theorem strictEquals_symm (ha : a.Formed) (hb : b.Formed) (h : strictEquals a b = true) :
    strictEquals b a = true := by
  induction a using inductParts generalizing b with
  | single v hv => exact strictEquals_comm_single hv ▸ h
  | array items ih =>
    cases b with
    | array others =>
      obtain ⟨hlength, hequal⟩ := strictEquals_array.1 h
      refine strictEquals_array.2 ⟨hlength.symm, fun i w v hw hv => ?_⟩
      have hitem := List.mem_of_getElem? hv
      exact ih v hitem (ha.item v hitem) (hb.item w (List.mem_of_getElem? hw)) (hequal i v w hv hw)
    | _ => cases h
  | object fields ih =>
    cases b with
    | object others =>
      obtain ⟨hkeys, hfields⟩ := ha.fields
      obtain ⟨hkeys', hothers⟩ := hb.fields
      obtain ⟨hlength, hequal⟩ := strictEquals_object.1 h
      have hsub : Fields.keys others ⊆ Fields.keys fields := by
        refine keys_subset hkeys hlength fun key hkey => ?_
        obtain ⟨field, hfield, rfl⟩ := List.mem_map.1 hkey
        obtain ⟨w, hw, -⟩ := hequal field hfield
        exact List.mem_map.2 ⟨_, Fields.mem_of_get? hw, rfl⟩
      refine strictEquals_object.2 ⟨hlength.symm, fun other hother => ?_⟩
      -- the field with the same key holds an equal value, and that value is this one
      obtain ⟨field, hfield, hkey⟩ := List.mem_map.1 (hsub (List.mem_map_of_mem hother))
      obtain ⟨w, hw, heq⟩ := hequal field hfield
      rw [hkey] at hw
      obtain rfl := Option.some.inj ((Fields.get?_of_mem hkeys' hother).symm.trans hw)
      exact ⟨field.2, hkey ▸ Fields.get?_of_mem hkeys hfield,
        ih field hfield (hfields field hfield) (hothers other hother) heq⟩
    | _ => cases h

/-- Strict equality is symmetric. -/
theorem strictEquals_comm (ha : a.Formed) (hb : b.Formed) : strictEquals a b = strictEquals b a :=
  Bool.eq_iff_iff.2 ⟨strictEquals_symm ha hb, strictEquals_symm hb ha⟩

theorem strictEquals_trans_single (ha : a.isComposite = false) (h : strictEquals a b = true)
    (h' : strictEquals b c = true) : strictEquals a c = true := by
  cases a with
  | array items => cases ha
  | object fields => cases ha
  | undefined =>
    cases b with
    | undefined => exact h'
    | _ => cases h
  | null =>
    cases b with
    | null => exact h'
    | _ => cases h
  | boolean x =>
    cases b with
    | boolean y =>
      obtain rfl : x = y := beq_iff_eq.1 h
      exact h'
    | _ => cases h
  | string s =>
    cases b with
    | string t =>
      obtain rfl : s = t := beq_iff_eq.1 h
      exact h'
    | _ => cases h
  | number x =>
    cases b with
    | number y =>
      -- numbers are where equality is not that of Lean: NaN differs from itself
      cases c with
      | number z => exact BEq.trans (α := Float) h h'
      | _ => cases h'
    | _ => cases h
  | function i f =>
    cases b with
    | function j g =>
      -- functions are compared by their identity, not by what they do
      cases c with
      | function k e => exact BEq.trans (α := Identity) h h'
      | _ => cases h'
    | _ => cases h

/-- Strict equality is transitive. -/
theorem strictEquals_trans (h : strictEquals a b = true) (h' : strictEquals b c = true) :
    strictEquals a c = true := by
  induction a using inductParts generalizing b c with
  | single v hv => exact strictEquals_trans_single hv h h'
  | array items ih =>
    cases b with
    | array others =>
      cases c with
      | array more =>
        obtain ⟨hlength, hequal⟩ := strictEquals_array.1 h
        obtain ⟨hlength', hequal'⟩ := strictEquals_array.1 h'
        refine strictEquals_array.2 ⟨hlength.trans hlength', fun i v x hv hx => ?_⟩
        -- the arrays have one length, so that there is an element between the other two
        have hi : i < others.length := hlength ▸ (List.getElem?_eq_some_iff.1 hv).1
        exact ih v (List.mem_of_getElem? hv) (hequal i v _ hv (List.getElem?_eq_getElem hi))
          (hequal' i _ x (List.getElem?_eq_getElem hi) hx)
      | _ => cases h'
    | _ => cases h
  | object fields ih =>
    cases b with
    | object others =>
      cases c with
      | object more =>
        obtain ⟨hlength, hequal⟩ := strictEquals_object.1 h
        obtain ⟨hlength', hequal'⟩ := strictEquals_object.1 h'
        refine strictEquals_object.2 ⟨hlength.trans hlength', fun field hfield => ?_⟩
        obtain ⟨w, hw, heq⟩ := hequal field hfield
        -- the field of the second object is the link to that of the third
        obtain ⟨x, hx, heq'⟩ := hequal' (field.1, w) (Fields.mem_of_get? hw)
        exact ⟨x, hx, ih field hfield heq heq'⟩
      | _ => cases h'
    | _ => cases h

/-! ### Equality with conversions -/

theorem Formed.withoutBoolean (h : a.Formed) : a.withoutBoolean.Formed := by
  cases a with
  | boolean x => exact .single rfl
  | _ => exact h

theorem Formed.primitive (h : a.Formed) : a.primitive.Formed := by
  cases a with
  | array items => exact .single rfl
  | object fields => exact .single rfl
  | function i f => exact .single rfl
  | _ => exact h

theorem scalarEquals_comm (ha : a.Formed) (hb : b.Formed) :
    scalarEquals a b = scalarEquals b a := by
  cases a with
  | number x =>
    cases b with
    | string s => exact BEq.comm (α := Float)
    | _ => exact strictEquals_comm ha hb
  | string s =>
    cases b with
    | number x => exact BEq.comm (α := Float)
    | _ => exact strictEquals_comm ha hb
  | _ => cases b <;> exact strictEquals_comm ha hb

/-- Equality with conversions is symmetric. -/
theorem looseEquals_comm (ha : a.Formed) (hb : b.Formed) : looseEquals a b = looseEquals b a := by
  have hmixed : ∀ v w : Value, (v.isScalar && w.isComposite || v.isComposite && w.isScalar) =
      (w.isScalar && v.isComposite || w.isComposite && v.isScalar) := by
    intro v w
    rw [Bool.or_comm, Bool.and_comm v.isComposite, Bool.and_comm v.isScalar]
  simp only [looseEquals, Bool.or_comm b.isNullish, Bool.and_comm b.isNullish,
    hmixed b.withoutBoolean, scalarEquals_comm hb.withoutBoolean ha.withoutBoolean,
    scalarEquals_comm hb.withoutBoolean.primitive ha.withoutBoolean.primitive]

/-- What is undefined or null equals what is undefined or null, and nothing else. -/
theorem looseEquals_nullish (h : a.isNullish = true) : looseEquals a b = b.isNullish := by
  rw [looseEquals, h, Bool.true_or, if_pos rfl, Bool.true_and]

/-- Values that are strictly equal are equal with conversions. -/
theorem looseEquals_of_strictEquals (h : strictEquals a b = true) : looseEquals a b = true := by
  cases a with
  | boolean x =>
    cases b with
    | boolean y =>
      obtain rfl : x = y := beq_iff_eq.1 h
      cases x <;> decide
    | _ => cases h
  | _ =>
    cases b <;> first
    | exact h
    | cases h

/-- Values that are strictly equal are the same value. -/
theorem sameValue_of_strictEquals (h : strictEquals a b = true) : sameValue a b = true := by
  cases a with
  | number x =>
    cases b with
    | number y =>
      have hxy : (x == y) = true := h
      rw [sameValue, hxy, Bool.or_true]
    | _ => exact h
  | _ => exact h

/-! ### Conversions one after the other -/

/-- The operands with which a comparison goes on, if one of them has to be converted: a boolean
becomes a number, the first operand's before the second's, and beside a number or a text what has
parts becomes a text. -/
def converted? (a b : Value) : Option (Value × Value) :=
  if a.isNullish || b.isNullish then none
  else
    match a, b with
    | number _, string _ | string _, number _ => none
    | boolean x, b => some (number (toNumber (boolean x)), b)
    | a, boolean y => some (a, number (toNumber (boolean y)))
    | a, b =>
      if (a.isComposite && b.isScalar) || (a.isScalar && b.isComposite) then
        some (a.primitive, b.primitive) else none

/-- The answer for operands that are compared as they are. -/
def settled (a b : Value) : Bool :=
  if a.isNullish || b.isNullish then a.isNullish && b.isNullish else scalarEquals a b

/-- The comparison of two values comes to an end with an answer. -/
inductive Compares : Value → Value → Bool → Prop
  | settled {a b : Value} (h : converted? a b = none) : Compares a b (settled a b)
  | converted {a b a' b' : Value} {answer : Bool} (h : converted? a b = some (a', b'))
    (rest : Compares a' b' answer) : Compares a b answer

/-- A converted operand makes the comparison no other. -/
theorem looseEquals_of_converted {a' b' : Value} (h : converted? a b = some (a', b')) :
    looseEquals a b = looseEquals a' b' := by
  cases a <;> cases b <;> cases h <;> rfl

theorem looseEquals_of_settled (h : converted? a b = none) : looseEquals a b = settled a b := by
  cases a <;> cases b <;> cases h <;> rfl

/-- How often an operand may still be converted. -/
def pending : Value → Nat
  | boolean _ | array _ | object _ => 1
  | _ => 0

theorem pending_lt {a' b' : Value} (h : converted? a b = some (a', b')) :
    a'.pending + b'.pending < a.pending + b.pending := by
  cases a <;> cases b <;> cases h <;> simp [pending, primitive]

/-- Every comparison comes to an end. -/
theorem compares (a b : Value) : Compares a b (looseEquals a b) := by
  generalize hn : a.pending + b.pending = n
  induction n using Nat.strongRecOn generalizing a b with
  | ind n ih =>
    rcases h : converted? a b with _ | ⟨a', b'⟩
    · exact looseEquals_of_settled h ▸ .settled h
    · have hrest := ih _ (hn ▸ pending_lt h) a' b' rfl
      exact .converted h (looseEquals_of_converted h ▸ hrest)

/-- Converting one operand after the other comes to an end, with one answer. -/
theorem compares_iff {answer : Bool} : Compares a b answer ↔ looseEquals a b = answer := by
  constructor
  · intro h
    induction h with
    | settled h => exact looseEquals_of_settled h
    | converted h rest ih => rw [looseEquals_of_converted h, ih]
  · rintro rfl
    exact compares a b

/-! ### The family -/

/-- The equalities of values are a consistent family.  Strict equality is symmetric and transitive,
and a value equals itself unless the number that is not a number occurs in it.  Values that are
strictly equal are equal with conversions, and are the same value.  Equality with conversions is
symmetric, converting one operand after the other comes to an end with its answer, and what is
undefined or null equals what is undefined or null and nothing else. -/
theorem equalities (ha : a.Formed) (hb : b.Formed) :
    strictEquals a b = strictEquals b a ∧
    (strictEquals a b = true → strictEquals b c = true → strictEquals a c = true) ∧
    (strictEquals a a = true ↔ ¬ HoldsNaN a) ∧
    (strictEquals a b = true → looseEquals a b = true ∧ sameValue a b = true) ∧
    looseEquals a b = looseEquals b a ∧
    (∀ answer, Compares a b answer ↔ looseEquals a b = answer) ∧
    (∀ v, v = undefined ∨ v = null → (looseEquals v b = true ↔ b = undefined ∨ b = null)) := by
  refine ⟨strictEquals_comm ha hb, strictEquals_trans, strictEquals_self ha,
    fun h => ⟨looseEquals_of_strictEquals h, sameValue_of_strictEquals h⟩, looseEquals_comm ha hb,
    fun answer => compares_iff, fun v hv => ?_⟩
  have hnullish : ∀ w : Value, w.isNullish = true ↔ w = undefined ∨ w = null := by
    intro w
    cases w <;> simp [isNullish]
  rw [looseEquals_nullish ((hnullish v).2 hv), hnullish]

/-- Two objects with the same fields in another order, one of which holds an array and the other a
function. -/
theorem equalities_otherOrder :
    let f := function (.given 0) (.host "f")
    let a := object [("x", array [ofNat 1, null]), ("y", f)]
    let b := object [("y", f), ("x", array [ofNat 1, null])]
    a.Formed ∧ b.Formed ∧ strictEquals a b = true ∧ strictEquals b a = true ∧
    looseEquals a b = true ∧
      sameValue a b = true ∧ ¬ HoldsNaN a := by
  intro f a b
  have harray : (array [ofNat 1, null]).Formed := by
    refine .array fun v hv => .single ?_
    rcases List.mem_cons.1 hv with rfl | hv
    · rfl
    · obtain rfl := List.mem_singleton.1 hv
      rfl
  have ha : a.Formed := by
    refine .object (by decide) fun field hfield => ?_
    rcases List.mem_cons.1 hfield with rfl | hfield
    · exact harray
    · obtain rfl := List.mem_singleton.1 hfield
      exact .single rfl
  have hb : b.Formed := by
    refine .object (by decide) fun field hfield => ?_
    rcases List.mem_cons.1 hfield with rfl | hfield
    · exact .single rfl
    · obtain rfl := List.mem_singleton.1 hfield
      exact harray
  have hequal : strictEquals a b = true := by decide
  obtain ⟨hcomm, htrans, hself, himplies, -, -, -⟩ := equalities (c := a) ha hb
  have hsymm : strictEquals b a = true := hcomm ▸ hequal
  exact ⟨ha, hb, hequal, hsymm, (himplies hequal).1, (himplies hequal).2,
    hself.1 (htrans hequal hsymm)⟩

end Value

end PromptMarkup

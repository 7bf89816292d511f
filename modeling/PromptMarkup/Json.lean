/-
Named fields, and JSON values.

Objects, configurations and parameters keep their keys in the order in which they were first
written: a new key goes to the end, a key that is written again keeps its place.

* `Fields.get?_put` — what is read back after a write;
* `Fields.keys_put` — the order of the keys after a write;
* `Fields.get?_putAll`, `Fields.keys_prefix_putAll` — the same after several writes;
* `Json` — a JSON value; its numbers are whole numbers or doubles, as they were written.
-/
namespace PromptMarkup

/-- Named fields in insertion order. -/
abbrev Fields (α : Type) := List (String × α)

namespace Fields

variable {α : Type}

/-- The value of a key. -/
def get? : Fields α → String → Option α
  | [], _ => none
  | (k, v) :: rest, key => if k = key then some v else get? rest key

/-- Writes a key: in its place if it is there, at the end otherwise. -/
def put : Fields α → String → α → Fields α
  | [], key, v => [(key, v)]
  | (k, w) :: rest, key, v => if k = key then (k, v) :: rest else (k, w) :: put rest key v

/-- Writes the given fields one after the other. -/
def putAll (fields : Fields α) (more : Fields α) : Fields α :=
  more.foldl (fun acc kv => acc.put kv.1 kv.2) fields

/-- The keys in their order. -/
def keys (fields : Fields α) : List String :=
  fields.map Prod.fst

/-- The key is there. -/
def has (fields : Fields α) (key : String) : Bool :=
  (fields.get? key).isSome

theorem has_of_get? {fields : Fields α} {key : String} {v : α} (h : fields.get? key = some v) :
    fields.has key := by
  rw [has, h]
  rfl

theorem not_has_of_get? {fields : Fields α} {key : String} (h : fields.get? key = none) :
    ¬ fields.has key := by
  rw [has, h]
  exact Bool.false_ne_true

theorem get?_put (fields : Fields α) (key key' : String) (v : α) :
    (fields.put key v).get? key' = if key = key' then some v else fields.get? key' := by
  induction fields with
  | nil => simp [put, get?]
  | cons kw rest ih =>
    obtain ⟨k, w⟩ := kw
    by_cases h : k = key
    · subst h
      by_cases h' : k = key' <;> simp [put, get?, h']
    · by_cases h' : k = key'
      · subst h'
        simp [put, get?, h, Ne.symm h]
      · simp [put, get?, h, h', ih]

theorem keys_put (fields : Fields α) (key : String) (v : α) :
    (fields.put key v).keys = if key ∈ fields.keys then fields.keys else fields.keys ++ [key] := by
  induction fields with
  | nil => simp [put, keys]
  | cons kw rest ih =>
    obtain ⟨k, w⟩ := kw
    by_cases h : k = key
    · subst h
      simp [put, keys]
    · simp only [keys] at ih
      simp only [put, h, if_false, keys, List.map_cons, ih, List.mem_cons, Ne.symm h, false_or]
      split <;> rename_i hk <;> simp [hk]

theorem get?_append (fields more : Fields α) (key : String) :
    get? (fields ++ more) key = (fields.get? key).or (more.get? key) := by
  induction fields with
  | nil => rfl
  | cons field rest ih =>
    rw [List.cons_append, get?, get?]
    split
    · rfl
    · exact ih

/-- Of several writes to a key the last one counts. -/
theorem get?_putAll (fields more : Fields α) (key : String) :
    (putAll fields more).get? key = (get? more.reverse key).or (fields.get? key) := by
  induction more generalizing fields with
  | nil => rfl
  | cons field rest ih =>
    rw [List.reverse_cons, get?_append, Option.or_assoc]
    refine (ih (fields.put field.1 field.2)).trans (congrArg _ ?_)
    rw [get?_put, get?, get?]
    split
    · rfl
    · rfl

/-- What is written later goes behind the keys that are there. -/
theorem keys_prefix_putAll (fields more : Fields α) : fields.keys <+:
    (putAll fields more).keys := by
  induction more generalizing fields with
  | nil => exact List.prefix_rfl
  | cons field rest ih =>
    refine List.IsPrefix.trans ?_ (ih (fields.put field.1 field.2))
    rw [keys_put]
    split
    · exact List.prefix_rfl
    · exact List.prefix_append _ _

end Fields

/-- A JSON value. -/
inductive Json
  | null
  | boolean (value : Bool)
  /-- A number written without fraction and exponent. -/
  | whole (value : Int)
  | number (value : Float)
  | string (value : String)
  | array (items : List Json)
  | object (fields : List (String × Json))
deriving Repr

namespace Json

instance : Inhabited Json := ⟨null⟩

/-- The fields of an object. -/
def fields? : Json → Option (Fields Json)
  | object fields => some fields
  | _ => none

end Json

end PromptMarkup

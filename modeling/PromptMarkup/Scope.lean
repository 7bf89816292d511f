/-
Variables.

All values of a run lie in one stash, which only grows.  A scope sees the stash through pointers
from names to slots.  An inner scope starts with the pointers of the scope around it: a name that is
visible there keeps its slot, so that writes go to both, and a name that is new inside is not seen
outside.

* `Scope.ofFields` — a scope that holds the given parameters;
* `Scope.get?_set` — what is read back after a write to the same name.
-/
import PromptMarkup.Value

namespace PromptMarkup

/-- The slots of the names that are visible. -/
abbrev Pointers := Fields Nat

/-- All values of a run. -/
structure Stash where
  slots : Array Value
  /-- How many lookups have been made so far; the next one gives its function this number. -/
  lookups : Nat

/-- A stash without values. -/
def Stash.empty : Stash :=
  ⟨#[], 0⟩

/-- Names over a stash. -/
structure Scope where
  stash : Stash
  pointers : Pointers

namespace Scope

/-- A scope in which no name is visible. -/
def ofStash (stash : Stash) : Scope :=
  ⟨stash, []⟩

/-- The name is visible. -/
def sees (scope : Scope) (name : String) : Bool :=
  scope.pointers.has name

/-- The value of a name. -/
def get? (scope : Scope) (name : String) : Option Value :=
  (scope.pointers.get? name).bind fun i => scope.stash.slots[i]?

/-- Writes a value into the slot of a name; a name that is not visible gets a new slot. -/
def set (scope : Scope) (name : String) (v : Value) : Scope :=
  match scope.pointers.get? name with
  | some i =>
    { scope with stash.slots := scope.stash.slots.setIfInBounds i v }
  | none =>
    { stash := { scope.stash with slots := scope.stash.slots.push v }
      pointers := scope.pointers.put name scope.stash.slots.size }

theorem get?_set {scope : Scope} {name : String}
    (h : ∀ i, scope.pointers.get? name = some i → i < scope.stash.slots.size) (v : Value) :
    (scope.set name v).get? name = some v := by
  unfold set
  split
  · rename_i i hi
    simp [get?, hi, h i hi]
  · simp [get?, Fields.get?_put]

/-- A scope that holds the given values. -/
def ofFields (fields : Fields Value) : Scope :=
  fields.foldl (fun scope field => scope.set field.1 field.2) (ofStash .empty)

/-- The names that are visible with their values. -/
def bindings (scope : Scope) : Fields Value :=
  scope.pointers.filterMap fun (name, _) => (scope.get? name).map fun v => (name, v)

end Scope

end PromptMarkup

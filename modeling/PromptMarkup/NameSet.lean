/-
Sets of names, in order.

A set is the list of its names, each once, in the order of their characters.

* `NameSet.mem_insert`, `NameSet.mem_union` — what is in a set after an insertion and in a union;
* `NameSet.toList_ext` — two sets with the same names are the same.
-/
namespace PromptMarkup

/-- Puts a name in its place in an ordered list, unless it is there. -/
def insertName (name : String) : List String → List String
  | [] => [name]
  | other :: rest =>
    if name = other then other :: rest
    else if name < other then name :: other :: rest
    else other :: insertName name rest

theorem mem_insertName {x name : String} {names : List String} :
    x ∈ insertName name names ↔ x = name ∨ x ∈ names := by
  induction names with
  | nil => simp [insertName]
  | cons other rest ih =>
    simp only [insertName]
    split
    · rename_i h
      simp [h]
    · split
      · simp
      · simp only [List.mem_cons, ih]
        exact or_left_comm

theorem pairwise_insertName {name : String} {names : List String}
    (h : names.Pairwise (· < ·)) : (insertName name names).Pairwise (· < ·) := by
  induction names with
  | nil => simp [insertName]
  | cons other rest ih =>
    obtain ⟨hother, hrest⟩ := List.pairwise_cons.1 h
    simp only [insertName]
    split
    · exact h
    · rename_i hne
      split
      · rename_i hlt
        refine List.pairwise_cons.2 ⟨fun x hx => ?_, h⟩
        rcases List.mem_cons.1 hx with rfl | hx
        · exact hlt
        · exact String.lt_trans hlt (hother x hx)
      · rename_i hnot
        -- what is neither equal nor less is greater
        have hlt : other < name :=
          Decidable.byContradiction fun h' =>
            hne (String.le_antisymm (String.not_lt.1 h') (String.not_lt.1 hnot))
        refine List.pairwise_cons.2 ⟨fun x hx => ?_, ih hrest⟩
        rcases mem_insertName.1 hx with rfl | hx
        · exact hlt
        · exact hother x hx

/-- A set of names. -/
structure NameSet where
  /-- The names in order. -/
  toList : List String
  ordered : toList.Pairwise (· < ·)
deriving DecidableEq, Repr

namespace NameSet

/-- The set without names. -/
def empty : NameSet :=
  ⟨[], List.Pairwise.nil⟩

instance : Membership String NameSet :=
  ⟨fun s name => name ∈ s.toList⟩

instance (name : String) (s : NameSet) : Decidable (name ∈ s) :=
  inferInstanceAs (Decidable (name ∈ s.toList))

/-- The set with one more name. -/
def insert (s : NameSet) (name : String) : NameSet :=
  ⟨insertName name s.toList, pairwise_insertName s.ordered⟩

/-- The set with the names of another one. -/
def union (s t : NameSet) : NameSet :=
  t.toList.foldl insert s

/-- The set of the names of a list. -/
def ofList (names : List String) : NameSet :=
  names.foldl insert empty

theorem mem_iff {x : String} {s : NameSet} : x ∈ s ↔ x ∈ s.toList :=
  Iff.rfl

theorem mem_insert {x name : String} {s : NameSet} : x ∈ s.insert name ↔ x = name ∨ x ∈ s :=
  mem_insertName

theorem mem_foldl_insert {x : String} {names : List String} {s : NameSet} :
    x ∈ names.foldl insert s ↔ x ∈ s ∨ x ∈ names := by
  induction names generalizing s with
  | nil => simp
  | cons name rest ih =>
    simp only [List.foldl_cons, ih, mem_insert, List.mem_cons]
    exact ⟨by rintro ((h | h) | h) <;> simp [h], by rintro (h | h | h) <;> simp [h]⟩

theorem mem_union {x : String} {s t : NameSet} : x ∈ s.union t ↔ x ∈ s ∨ x ∈ t :=
  mem_foldl_insert

theorem ext_of_pairwise {xs ys : List String} (hx : xs.Pairwise (· < ·))
    (hy : ys.Pairwise (· < ·)) (h : ∀ x, x ∈ xs ↔ x ∈ ys) : xs = ys := by
  induction xs generalizing ys with
  | nil =>
    cases ys with
    | nil => rfl
    | cons y ys => exact absurd ((h y).2 (by simp)) (by simp)
  | cons x xs ih =>
    cases ys with
    | nil => exact absurd ((h x).1 (by simp)) (by simp)
    | cons y ys =>
      obtain ⟨hxs, hxs'⟩ := List.pairwise_cons.1 hx
      obtain ⟨hys, hys'⟩ := List.pairwise_cons.1 hy
      -- the first names are equal, for each of them is the least
      have hxy : x = y := by
        rcases List.mem_cons.1 ((h x).1 (by simp)) with e | hmem
        · exact e
        · rcases List.mem_cons.1 ((h y).2 (by simp)) with e | hmem'
          · exact e.symm
          · exact absurd (String.lt_trans (hys x hmem) (hxs y hmem')) (String.lt_irrefl y)
      subst hxy
      have hrest : ∀ z, z ∈ xs ↔ z ∈ ys := fun z => by
        constructor
        · intro hz
          rcases List.mem_cons.1 ((h z).1 (List.mem_cons_of_mem _ hz)) with e | hz'
          · exact absurd (e ▸ hxs z hz) (String.lt_irrefl z)
          · exact hz'
        · intro hz
          rcases List.mem_cons.1 ((h z).2 (List.mem_cons_of_mem _ hz)) with e | hz'
          · exact absurd (e ▸ hys z hz) (String.lt_irrefl z)
          · exact hz'
      rw [ih hxs' hys' hrest]

theorem toList_ext {s t : NameSet} (h : ∀ x, x ∈ s ↔ x ∈ t) : s = t := by
  have hlist : s.toList = t.toList := ext_of_pairwise s.ordered t.ordered h
  cases s
  cases t
  simp_all

end NameSet

end PromptMarkup

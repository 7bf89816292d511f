/-
Paths that stay below their root.

* `Path.foldl_follow_eq` — following segments goes up in the directory it starts from, then down by
  names;
* `Path.join_names` — a path of names is joined to itself;
* `Path.file_names` — the file of a path of names is reached from the root directory by names;
* `Path.join_confined` — from a path without `.` and `..` every reference leads to a path of names,
  which stays as it is when it is joined again, depends only on the canonical form of the referring
  path, and is read below the root;
* `Path.join_escapes` — the dots of a referring path are not followed.

Design notes: the path of a referring prompt is cut at its slashes and loses its last segment, but
it is not followed from the root as references are.  So what is left of it in front of the names
decides whether the joined path is a path of names.
-/
import Mathlib.Data.List.Basic
import PromptMarkup.Proofs.Paths

namespace PromptMarkup

namespace Path

/-! ### Paths of names -/

theorem segments_ne_nil (s : List Char) : segments s ≠ [] := by
  cases s with
  | nil => exact List.cons_ne_nil _ _
  | cons c s =>
    rw [segments]
    split
    · exact List.cons_ne_nil _ _
    · split
      · exact List.cons_ne_nil _ _
      · exact List.cons_ne_nil _ _

/-- The text is a path of names, without slashes at its ends.  The empty path has no segments. -/
def IsNormal (path : String) : Prop :=
  path = "" ∨ ∀ s ∈ segments path.toList, IsName s

/-- The segments between the slashes are empty or names. -/
def IsPlain (path : String) : Prop :=
  ∀ s ∈ segments path.toList, s ≠ ['.'] ∧ s ≠ ['.', '.']

/-- The segments of a path that are not empty. -/
def named (path : String) : List (List Char) :=
  (segments path.toList).filter fun segment => !segment.isEmpty

theorem directoryOf_eq (origin : String) : directoryOf origin = (named origin).dropLast :=
  rfl

theorem isName_of_mem_named {path : String} (h : IsPlain path) : ∀ s ∈ named path, IsName s := by
  intro s hs
  obtain ⟨hs, hne⟩ := List.mem_filter.1 hs
  have hempty : s ≠ [] := fun heq => by simp [heq] at hne
  exact ⟨noSlash_of_mem_segments hs, hempty, (h s hs).1, (h s hs).2⟩

variable {names : List (List Char)}

theorem segments_names (hne : names ≠ []) (h : ∀ s ∈ names, IsName s) :
    segments (ofSegments names) = names :=
  segments_ofSegments hne fun s hs => (h s hs).noSlash

/-- The names of a path of names. -/
theorem named_names (h : ∀ s ∈ names, IsName s) :
    named (String.ofList (ofSegments names)) = names := by
  rw [named, String.toList_ofList]
  by_cases hnil : names = []
  · rw [hnil]
    rfl
  · rw [segments_names hnil h]
    exact List.filter_eq_self.2 fun s hs => by simp [(h s hs).notEmpty]

theorem isNormal_names (h : ∀ s ∈ names, IsName s) :
    IsNormal (String.ofList (ofSegments names)) := by
  by_cases hnil : names = []
  · exact .inl (by rw [hnil]; rfl)
  · refine .inr fun s hs => ?_
    rw [String.toList_ofList, segments_names hnil h] at hs
    exact h s hs

/-- A path of names is joined to itself. -/
theorem join_names (h : ∀ s ∈ names, IsName s) :
    join (String.ofList (ofSegments names)) none = String.ofList (ofSegments names) := by
  rw [join_none, String.toList_ofList]
  by_cases hnil : names = []
  · rw [hnil]
    rfl
  · rw [segments_names hnil h, foldl_follow_of_isName h, List.nil_append]

/-! ### Following segments -/

/-- A segment goes up in the directory that was started from, or changes the names behind it. -/
theorem follow_eq {start kept : List (List Char)} {segment : List Char} (hkept : kept <+: start)
    (h : ∀ s ∈ names, IsName s) (hsegment : '/' ∉ segment) :
    ∃ kept' names', kept' <+: start ∧ (∀ s ∈ names', IsName s) ∧
    follow (kept ++ names) segment = kept' ++ names' := by
  unfold follow
  -- three kinds of segments: one that stays, one that goes up, and a name
  split
  · exact ⟨kept, names, hkept, h, rfl⟩
  · next hidle =>
    simp only [Bool.or_eq_true, beq_iff_eq, not_or] at hidle
    split
    -- going up takes a name off, or else a segment of the directory that is kept
    · by_cases hnil : names = []
      · refine ⟨kept.dropLast, [], (List.dropLast_prefix kept).trans hkept,
          List.forall_mem_nil _, ?_⟩
        rw [hnil, List.append_nil, List.append_nil]
      · refine ⟨kept, names.dropLast, hkept, fun s hs => h s (List.dropLast_subset _ hs), ?_⟩
        rw [List.dropLast_append_of_ne_nil hnil]
    · next hup =>
      refine ⟨kept, names ++ [segment], hkept, fun s hs => ?_, List.append_assoc _ _ _⟩
      rcases List.mem_append.1 hs with hs | hs
      · exact h s hs
      · obtain rfl := List.mem_singleton.1 hs
        exact ⟨hsegment, hidle.1, hidle.2, fun heq => hup (beq_iff_eq.2 heq)⟩

/-- Following segments goes up in the directory that was started from, then down by names. -/
theorem foldl_follow_eq {start kept segs : List (List Char)} (hkept : kept <+: start)
    (h : ∀ s ∈ names, IsName s) (hsegs : ∀ s ∈ segs, '/' ∉ s) :
    ∃ kept' names', kept' <+: start ∧ (∀ s ∈ names', IsName s) ∧
      segs.foldl follow (kept ++ names) = kept' ++ names' := by
  induction segs generalizing kept names with
  | nil => exact ⟨kept, names, hkept, h, rfl⟩
  | cons segment rest ih =>
    obtain ⟨kept', names', hkept', h', hfollow⟩ :=
      follow_eq hkept h (hsegs segment List.mem_cons_self)
    rw [List.foldl_cons, hfollow]
    exact ih hkept' h' fun s hs => hsegs s (List.mem_cons_of_mem _ hs)

/-- A joined path starts as the directory of the referring path does, and goes on by names. -/
theorem join_eq (path : String) (origin : Option String) :
    ∃ kept names, kept <+: startOf path origin ∧ (∀ s ∈ names, IsName s) ∧
      join path origin = String.ofList (ofSegments (kept ++ names)) := by
  have hnone : ∀ s ∈ ([] : List (List Char)), IsName s := List.forall_mem_nil _
  obtain ⟨kept, names, hkept, h, hfollow⟩ :=
    foldl_follow_eq (List.prefix_refl (startOf path origin)) hnone
      fun s (hs : s ∈ segments path.toList) => noSlash_of_mem_segments hs
  rw [List.append_nil] at hfollow
  exact ⟨kept, names, hkept, h, by rw [join, hfollow]⟩

/-- A plain path is followed from the root by its names. -/
theorem join_plain {path : String} (h : IsPlain path) :
    join path none = String.ofList (ofSegments (named path)) := by
  have hfollow : ∀ segs directory : List (List Char), (∀ s ∈ segs, s ≠ ['.'] ∧ s ≠ ['.', '.']) →
      segs.foldl follow directory = directory ++ segs.filter fun segment => !segment.isEmpty := by
    intro segs
    induction segs with
    | nil => exact fun directory _ => (List.append_nil directory).symm
    | cons s rest ih =>
      intro directory hplain
      have hs := hplain s List.mem_cons_self
      rw [List.foldl_cons, ih _ fun t ht => hplain t (List.mem_cons_of_mem _ ht)]
      by_cases hempty : s = []
      · simp [follow, hempty]
      · simp [follow, hempty, hs.1, hs.2]
  rw [join_none, hfollow _ _ h, List.nil_append, named]

/-! ### Files -/

/-- A slash divides the segments. -/
theorem segments_append_slash (s t : List Char) :
    segments (s ++ '/' :: t) = segments s ++ segments t := by
  induction s with
  | nil => rfl
  | cons c s ih =>
    rw [List.cons_append, segments, segments, ih]
    split
    · rfl
    · rcases hs : segments s with _ | ⟨first, more⟩
      · exact absurd hs (segments_ne_nil s)
      · rfl

/-- The segments of a path, put together again, are the path. -/
theorem ofSegments_segments (s : List Char) : ofSegments (segments s) = s := by
  induction s with
  | nil => rfl
  | cons c s ih =>
    rw [segments]
    rcases hs : segments s with _ | ⟨first, more⟩
    · exact absurd hs (segments_ne_nil s)
    · rw [hs, ofSegments] at ih
      split
      · next hc =>
        rw [ofSegments, List.intercalate_cons_cons, ih, beq_iff_eq.1 hc]
        rfl
      · rw [ofSegments, List.intercalate_cons_cons_left, ih]

/-- What is written behind the last segment belongs to it. -/
theorem ofSegments_append_last (init : List (List Char)) (last more : List Char) :
    ofSegments (init ++ [last]) ++ more = ofSegments (init ++ [last ++ more]) := by
  induction init with
  | nil => simp [ofSegments]
  | cons first init ih =>
    rw [ofSegments] at ih
    simp only [ofSegments, List.cons_append]
    rw [List.intercalate_cons_of_ne_nil (by simp), List.intercalate_cons_of_ne_nil (by simp),
      List.append_assoc, ih]
    rfl

/-- A path of names does not start at the root. -/
theorem head?_names (h : ∀ s ∈ names, IsName s) : (ofSegments names).head? ≠ some '/' := by
  rcases names with _ | ⟨_ | ⟨c, first⟩, rest⟩
  · exact nofun
  · exact absurd rfl (h [] List.mem_cons_self).notEmpty
  · rw [ofSegments, List.intercalate_cons_cons_left, List.head?_cons]
    intro heq
    obtain rfl := Option.some.inj heq
    exact (h ('/' :: first) List.mem_cons_self).noSlash List.mem_cons_self

/-- What stands in front of a path below a root directory: nothing, or the directory and a slash. -/
def lead (root : String) : List Char :=
  if root.isEmpty || root.toList.getLast? == some '/' then root.toList else root.toList ++ ['/']

theorem below_names (root : String) (h : ∀ s ∈ names, IsName s) :
    below root (String.ofList (ofSegments names)) =
      String.ofList (lead root ++ ofSegments names) := by
  have hhead : ¬(ofSegments names).head? == some '/' := fun heq => head?_names h (beq_iff_eq.1 heq)
  rw [below, String.toList_ofList, if_neg hhead, lead]
  split
  · rw [String.ofList_append, String.ofList_toList]
  · rw [String.ofList_append, String.ofList_append, String.ofList_toList]

/-- The segments of a path below a root directory: those of the directory, and its own. -/
theorem segments_lead (root : String) : ∃ base, ∀ names : List (List Char), names ≠ [] →
    (∀ s ∈ names, IsName s) →
    segments (lead root ++ ofSegments names) = base ++ names := by
  -- a root that ends in a slash is followed by the path at once, any other gets a slash
  have hslash : ∀ r : List Char, ∃ base, ∀ names : List (List Char), names ≠ [] →
    (∀ s ∈ names, IsName s) →
      segments ((r ++ ['/']) ++ ofSegments names) = base ++ names := by
    intro r
    refine ⟨segments r, fun names hne h => ?_⟩
    rw [List.append_assoc, List.singleton_append, segments_append_slash, segments_names hne h]
  rw [lead]
  split
  · next hroot =>
    rcases List.eq_nil_or_concat' root.toList with hnil | ⟨r, c, hr⟩
    · exact ⟨[], fun names hne h => by rw [hnil]; exact segments_names hne h⟩
    · have hempty : root.isEmpty = false := by
        rw [← Bool.not_eq_true, String.isEmpty_iff, ← String.toList_inj, hr]
        simp
      rw [hempty, hr, List.getLast?_concat, Bool.false_or, beq_iff_eq] at hroot
      rw [hr, Option.some.inj hroot]
      exact hslash r
  · exact hslash root.toList

/-- Idle segments in front of the last one are no end of the path. -/
theorem trimIdle_append {last : List Char} (h : isIdle last = false) (init : List (List Char)) :
    trimIdle (init ++ [last]) = init ++ [last] := by
  cases init with
  | nil => rfl
  | cons first init => simp [trimIdle, h]

theorem IsName.isIdle {s : List Char} (h : IsName s) : isIdle s = false := by
  simp [Path.isIdle, h.notEmpty, h.notHere]

/-- A name is still one with the extension of prompts. -/
theorem IsName.extended {s : List Char} (h : IsName s) : IsName (s ++ promptExtension) := by
  have hlength : 8 ≤ (s ++ promptExtension).length := by
    rw [List.length_append]
    exact Nat.le_add_left _ _
  refine ⟨fun hin => ?_, fun heq => ?_, fun heq => ?_, fun heq => ?_⟩
  · rcases List.mem_append.1 hin with hin | hin
    · exact h.noSlash hin
    · exact absurd hin (by decide)
  · exact absurd (heq ▸ hlength) (by decide)
  · exact absurd (heq ▸ hlength) (by decide)
  · exact absurd (heq ▸ hlength) (by decide)

/-- The file of a path of names is reached from the root directory by names. -/
theorem file_names (root : String) (hne : names ≠ []) (h : ∀ s ∈ names, IsName s) :
    ∃ names', names' ≠ [] ∧ (∀ s ∈ names', IsName s) ∧
      file root (String.ofList (ofSegments names)) =
        below root (String.ofList (ofSegments names')) := by
  obtain ⟨base, hbase⟩ := segments_lead root
  have hsegments := hbase names hne h
  -- the extension is put behind the last name, and leaves it a name
  obtain ⟨init, last, rfl⟩ : ∃ init last, names = init ++ [last] := by
    rcases List.eq_nil_or_concat' names with hnil | hconcat
    · exact absurd hnil hne
    · exact hconcat
  have hlast : IsName last := h last (List.mem_append_right _ (List.mem_singleton_self _))
  have hname : name? (base ++ init ++ [last]) = some last := by
    simp [name?, hlast.isIdle, hlast.notUp]
  have hinit : ∀ s ∈ init ++ [last ++ promptExtension], IsName s := by
    intro s hs
    rcases List.mem_append.1 hs with hs | hs
    · exact h s (List.mem_append_left _ hs)
    · obtain rfl := List.mem_singleton.1 hs
      exact hlast.extended
  unfold file
  simp only [below_names root h, String.toList_ofList, hsegments]
  rw [← List.append_assoc, trimIdle_append hlast.isIdle, hname]
  dsimp only
  split
  · exact ⟨init ++ [last], hne, h, (below_names root h).symm⟩
  · refine ⟨init ++ [last ++ promptExtension], by simp, hinit, ?_⟩
    rw [below_names root hinit, ← ofSegments_append_last, ← List.append_assoc,
      List.append_assoc base, ← hsegments, ofSegments_segments]

/-! ### References -/

/-- The directory of the prompt at `origin` is known by names only, as far as the path starts there.
-/
def StartsPlain (path : String) (origin : Option String) : Prop :=
  path.toList.head? = some '/' ∨ ∀ o ∈ origin, IsPlain o

/-- What a reference to `path` in the prompt at `origin` leads to. -/
structure Confined (path : String) (origin : Option String) : Prop where
  /-- The joined path is a path of names. -/
  normal : IsNormal (join path origin)
  /-- It stays as it is when it is joined from the root. -/
  stays : join (join path origin) none = join path origin
  /-- It depends only on the canonical form of the referring path. -/
  canonical : ∀ o ∈ origin, join path (some o) = join path (some (join o none))
  /-- Below a root directory the reference is refused, or the file is read that is reached from
  there by names. -/
  inside : ∀ (files : Files) (root : String),
    files.find root path origin = .error (.pathToRoot path) ∨
    ∃ names, names ≠ [] ∧ (∀ s ∈ names, IsName s) ∧
      files.find root path origin =
        .ok ((files.read? (below root (String.ofList (ofSegments names)))).map fun text =>
          ⟨join path origin, text⟩)

theorem ne_nil_of_mem_startOf {path : String} {origin : Option String} {s : List Char}
    (h : s ∈ startOf path origin) :
    s ≠ [] := by
  rw [startOf] at h
  split at h
  · exact nomatch h
  · cases origin with
    | none => exact nomatch h
    | some o =>
      have hnamed : s ∈ named o := List.dropLast_subset _ h
      rintro rfl
      exact absurd (List.mem_filter.1 hnamed).2 Bool.false_ne_true

theorem isName_of_mem_startOf {path : String} {origin : Option String}
    (h : StartsPlain path origin) :
    ∀ s ∈ startOf path origin, IsName s := by
  intro s hs
  rw [startOf] at hs
  split at hs
  · exact nomatch hs
  · next hhead =>
    rcases h with habsolute | hplain
    · exact absurd (beq_iff_eq.2 habsolute) hhead
    · cases origin with
      | none => exact nomatch hs
      | some o => exact isName_of_mem_named (hplain o rfl) s (List.dropLast_subset _ hs)

/-- Every reference leads up in the directory of the referring prompt, then down by names.  If that
directory is known by names, the joined path is a path of names, which stays as it is, depends only
on the canonical form of the referring path, and is read below the root. -/
theorem join_confined (path : String) (origin : Option String) :
    (∃ kept names, kept <+: startOf path origin ∧ (∀ s ∈ kept, s ≠ []) ∧ (∀ s ∈ names, IsName s) ∧
      join path origin = String.ofList (ofSegments (kept ++ names))) ∧
    (StartsPlain path origin → Confined path origin) := by
  obtain ⟨kept, names, hkept, hnames, hjoin⟩ := join_eq path origin
  refine ⟨⟨kept, names, hkept, fun s hs => ne_nil_of_mem_startOf (hkept.subset hs), hnames, hjoin⟩,
    fun h => ?_⟩
  -- under the condition all segments of the joined path are names
  have hall : ∀ s ∈ kept ++ names, IsName s := by
    intro s hs
    rcases List.mem_append.1 hs with hs | hs
    · exact isName_of_mem_startOf h s (hkept.subset hs)
    · exact hnames s hs
  refine ⟨hjoin ▸ isNormal_names hall, by rw [hjoin,
    join_names hall], fun o ho => ?_, fun files root => ?_⟩
  · rcases h with habsolute | hplain
    · simp [join, startOf, habsolute]
    · have ho := hplain o ho
      -- the directory of the canonical form is that of the origin
      have hstart : startOf path (some (join o none)) = startOf path (some o) := by
        simp only [startOf, Option.map_some, Option.getD_some, directoryOf_eq, join_plain ho,
          named_names (isName_of_mem_named ho)]
      rw [join, join, hstart]
  · unfold Files.find
    dsimp only
    split
    · exact .inl rfl
    · next hempty =>
      have hne : kept ++ names ≠ [] := fun hnil => hempty (by rw [hjoin, hnil]; rfl)
      obtain ⟨names', hne', hnames', hfile⟩ := file_names root hne hall
      rw [← hjoin] at hfile
      exact .inr ⟨names', hne', hnames', by rw [hfile]⟩

/-- Up from a directory that is written with slashes in front and in between. -/
theorem join_confined_upFromDirectory :
    StartsPlain "../x/./y" (some "/a//b/c") ∧ Confined "../x/./y" (some "/a//b/c") ∧
      join "../x/./y" (some "/a//b/c") = "a/x/y" := by
  have hplain : StartsPlain "../x/./y" (some "/a//b/c") := by
    refine .inr fun o ho => ?_
    obtain rfl := Option.some.inj ho
    unfold IsPlain
    decide
  exact ⟨hplain, (join_confined _ _).2 hplain, by decide⟩

/-- The dots of a referring path are not followed, so that a reference leads out of the root. -/
theorem join_escapes :
    ¬(∀ (path : String) (origin : Option String), Confined path origin) ∧
      join "child" (some "../parent") = "../child" ∧
      join "child" (some (join "../parent" none)) = "child" ∧
      file "prompts" (join "child" (some "../parent")) = "prompts/../child.promptl" := by
  have hleaves : join "child" (some "../parent") = "../child" := by decide
  have hstays : join (join "child" (some "../parent")) none = "child" := by decide
  refine ⟨fun h => ?_, hleaves, by decide, by decide⟩
  have := hstays.symm.trans ((h "child" (some "../parent")).stays.trans hleaves)
  exact absurd this (by decide)

end Path

end PromptMarkup

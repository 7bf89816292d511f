/-
Joined paths.

* `Path.segments_ofSegments` — segments that are put together come apart again;
* `Path.join_join` — a path that was joined stays as it is when it is read from the root;
* `Resolver.Canonical` — prompts are found under their own paths;
* `Resolver.canonical_ofPrompts` — prompts in memory are.
-/
import PromptMarkup.Reference.Resolver

namespace PromptMarkup

namespace Path

/-! ### Segments -/

/-- A segment that goes down. -/
structure IsName (segment : List Char) : Prop where
  noSlash : '/' ∉ segment
  notEmpty : segment ≠ []
  notHere : segment ≠ ['.']
  notUp : segment ≠ ['.', '.']

/-- There is no slash in a segment. -/
theorem noSlash_of_mem_segments {chars segment : List Char} (h : segment ∈ segments chars) :
    '/' ∉ segment := by
  -- the induction is on the text; a segment ends in front of its slash
  induction chars generalizing segment with
  | nil =>
    obtain rfl := List.mem_singleton.1 h
    exact List.not_mem_nil
  | cons c rest ih =>
    unfold segments at h
    split at h
    · rcases List.mem_cons.1 h with rfl | h
      · exact List.not_mem_nil
      · exact ih h
    · next hc =>
      have hne : '/' ≠ c := fun heq => hc (beq_iff_eq.2 heq.symm)
      split at h
      · obtain rfl := List.mem_singleton.1 h
        simpa using hne
      · next first more hsegments =>
        rw [hsegments] at ih
        rcases List.mem_cons.1 h with rfl | h
        · exact fun hin => (List.mem_cons.1 hin).elim hne (ih List.mem_cons_self)
        · exact ih (List.mem_cons_of_mem _ h)

/-- What stands in front of the first slash is a segment. -/
theorem segments_append {s : List Char} (h : '/' ∉ s) (rest : List Char) :
    segments (s ++ '/' :: rest) = s :: segments rest := by
  induction s with
  | nil => rfl
  | cons c s ih =>
    rw [List.mem_cons, not_or] at h
    have hc : ¬(c == '/') = true := fun heq => h.1 (beq_iff_eq.1 heq).symm
    rw [List.cons_append, segments, if_neg hc, ih h.2]

theorem segments_of_noSlash {s : List Char} (h : '/' ∉ s) : segments s = [s] := by
  induction s with
  | nil => rfl
  | cons c s ih =>
    rw [List.mem_cons, not_or] at h
    have hc : ¬(c == '/') = true := fun heq => h.1 (beq_iff_eq.1 heq).symm
    rw [segments, if_neg hc, ih h.2]

/-- Segments that are put together come apart again. -/
theorem segments_ofSegments {segs : List (List Char)} (hne : segs ≠ []) (h : ∀ s ∈ segs, '/' ∉ s) :
    segments (ofSegments segs) = segs := by
  induction segs with
  | nil => exact absurd rfl hne
  | cons s rest ih =>
    cases rest with
    | nil =>
      rw [ofSegments, List.intercalate_singleton]
      exact segments_of_noSlash (h s List.mem_cons_self)
    | cons t rest =>
      have htail : segments (ofSegments (t :: rest)) = t :: rest :=
        ih (List.cons_ne_nil _ _) fun u hu => h u (List.mem_cons_of_mem _ hu)
      rw [ofSegments, List.intercalate_cons_cons, List.append_assoc, List.singleton_append,
        segments_append (h s List.mem_cons_self)]
      rw [ofSegments] at htail
      rw [htail]

/-! ### Directories -/

/-- From a directory of names a segment leads to a directory of names. -/
theorem isName_follow {directory : List (List Char)} {segment : List Char}
    (hdirectory : ∀ s ∈ directory, IsName s) (hsegment : '/' ∉ segment) :
    ∀ s ∈ follow directory segment, IsName s := by
  unfold follow
  split
  · exact hdirectory
  · next hidle =>
    split
    · exact fun s hs => hdirectory s (List.dropLast_subset _ hs)
    · next hup =>
      intro s hs
      rcases List.mem_append.1 hs with hs | hs
      · exact hdirectory s hs
      · obtain rfl := List.mem_singleton.1 hs
        simp only [Bool.or_eq_true, beq_iff_eq, not_or] at hidle
        exact ⟨hsegment, hidle.1, hidle.2, fun heq => hup (beq_iff_eq.2 heq)⟩

theorem isName_foldl_follow {segs directory : List (List Char)}
    (hdirectory : ∀ s ∈ directory, IsName s)
    (hsegs : ∀ s ∈ segs, '/' ∉ s) : ∀ s ∈ segs.foldl follow directory, IsName s := by
  induction segs generalizing directory with
  | nil => exact hdirectory
  | cons segment rest ih =>
    exact ih (isName_follow hdirectory (hsegs segment List.mem_cons_self)) fun s hs =>
      hsegs s (List.mem_cons_of_mem _ hs)

/-- Names go down, one after the other. -/
theorem foldl_follow_of_isName {segs directory : List (List Char)} (h : ∀ s ∈ segs, IsName s) :
    segs.foldl follow directory = directory ++ segs := by
  induction segs generalizing directory with
  | nil => exact (List.append_nil directory).symm
  | cons s rest ih =>
    have hs : IsName s := h s List.mem_cons_self
    have hfollow : follow directory s = directory ++ [s] := by
      simp [follow, hs.notEmpty, hs.notHere, hs.notUp]
    rw [List.foldl_cons, hfollow, ih fun t ht => h t (List.mem_cons_of_mem _ ht), List.append_assoc,
      List.singleton_append]

/-! ### Paths -/

/-- From the root, a path is its segments followed one after the other. -/
theorem join_none (path : String) :
    join path none = String.ofList (ofSegments ((segments path.toList).foldl follow [])) := by
  unfold join startOf
  split
  · rfl
  · rfl

/-- A path that was joined from the root stays as it is when it is joined again. -/
theorem join_join (path : String) : join (join path none) none = join path none := by
  have hnames : ∀ s ∈ (segments path.toList).foldl follow [], IsName s :=
    isName_foldl_follow (fun _ hs => nomatch hs) fun s hs => noSlash_of_mem_segments hs
  rw [join_none path]
  generalize (segments path.toList).foldl follow [] = names at hnames
  rw [join_none, String.toList_ofList]
  congr 2
  by_cases hnil : names = []
  · rw [hnil]
    rfl
  · rw [segments_ofSegments hnil fun s hs => (hnames s hs).noSlash, foldl_follow_of_isName hnames,
      List.nil_append]

end Path

/-! ### Prompts and their paths -/

/-- What is found among listed prompts was found. -/
theorem Resolver.eq_of_listed {paths : List String} {answer : Except ResolveError (Option Prompt)}
    {p : Prompt} (h : listed paths answer = .ok (some p)) : answer = .ok (some p) := by
  match answer, h with
  | .ok (some q), h =>
    obtain h := Except.ok.inj h
    split at h
    · exact congrArg Except.ok h
    · exact nomatch h

/-- A prompt is what a resolver finds for some reference. -/
def Resolver.Finds (r : Resolver) (p : Prompt) : Prop :=
  ∃ name origin, r.find name origin = .ok (some p)

/-- What is found depends only on the joined path.  A prompt that was found is found again under its
own path, from the root and wherever a reference is joined to that path. -/
structure Resolver.Canonical (r : Resolver) : Prop where
  joined : ∀ {name origin name' origin' p}, r.find name origin = .ok (some p) →
    Path.join name' origin' = Path.join name origin → r.find name' origin' = .ok (some p)
  root : ∀ {p}, r.Finds p → r.find p.path none = .ok (some p)
  own : ∀ {p}, r.Finds p → ∀ {name origin}, Path.join name origin = p.path →
    r.find name origin = .ok (some p)

/-! ### Prompts in memory -/

namespace Fields

variable {α : Type} {fields more : Fields α} {key : String}

theorem mem_keys_of_get? {v : α} (h : fields.get? key = some v) : key ∈ fields.keys := by
  induction fields with
  | nil => exact nomatch h
  | cons field rest ih =>
    rw [get?] at h
    split at h
    · next heq => exact heq ▸ List.mem_cons_self
    · exact List.mem_cons_of_mem _ (ih h)

theorem mem_keys_putAll (h : key ∈ (putAll fields more).keys) :
    key ∈ fields.keys ∨ key ∈ more.keys := by
  induction more generalizing fields with
  | nil => exact .inl h
  | cons field rest ih =>
    rcases ih h with h | h
    · rw [keys_put] at h
      split at h
      · exact .inl h
      · rcases List.mem_append.1 h with h | h
        · exact .inl h
        · obtain rfl := List.mem_singleton.1 h
          exact .inr List.mem_cons_self
    · exact .inr (List.mem_cons_of_mem _ h)

end Fields

namespace Resolver

variable {prompts : Fields String}

/-- What is found in memory is held under the joined path. -/
theorem find_ofPrompts (prompts : Fields String) (name : String) (origin : Option String) :
    (ofPrompts prompts).find name origin =
      .ok (((canonical prompts).get? (Path.join name origin)).map fun text =>
        ⟨Path.join name origin, text⟩) := by
  cases hget : (canonical prompts).get? (Path.join name origin) with
  | none =>
    show listed _ (.ok (((canonical prompts).get? _).map _)) = _
    rw [hget]
    rfl
  | some text =>
    show listed _ (.ok (((canonical prompts).get? _).map _)) = _
    rw [hget]
    exact congrArg Except.ok (if_pos (Fields.mem_keys_of_get? hget))

/-- Prompts are held in memory under paths that were joined from the root. -/
theorem join_of_mem_canonical {path : String} (h : path ∈ (canonical prompts).keys) :
    Path.join path none = path := by
  rcases Fields.mem_keys_putAll h with hnone | h
  · exact nomatch hnone
  · obtain ⟨field, hfield, rfl⟩ := List.mem_map.1 h
    obtain ⟨prompt, -, rfl⟩ := List.mem_map.1 hfield
    exact Path.join_join prompt.1

/-- A prompt that is found in memory is held under its path. -/
theorem get?_of_finds {p : Prompt} (h : (ofPrompts prompts).Finds p) :
    (canonical prompts).get? p.path = some p.text := by
  obtain ⟨name, origin, hfind⟩ := h
  rw [find_ofPrompts] at hfind
  obtain ⟨text, htext, rfl⟩ := Option.map_eq_some_iff.1 (Except.ok.inj hfind)
  exact htext

/-- Prompts in memory are found under their own paths. -/
theorem canonical_ofPrompts (prompts : Fields String) : (ofPrompts prompts).Canonical := by
  have hown {p : Prompt} (h : (ofPrompts prompts).Finds p) {name : String} {origin : Option String}
      (hjoin : Path.join name origin = p.path) :
      (ofPrompts prompts).find name origin = .ok (some p) := by
    rw [find_ofPrompts, hjoin, get?_of_finds h]
    rfl
  refine ⟨fun {name origin name' origin' p} hfind hjoin => ?_, fun {p} h => ?_, fun h => hown h⟩
  · rw [find_ofPrompts, hjoin, ← find_ofPrompts, hfind]
  · exact hown h (join_of_mem_canonical (Fields.mem_keys_of_get? (get?_of_finds h)))

end Resolver

end PromptMarkup

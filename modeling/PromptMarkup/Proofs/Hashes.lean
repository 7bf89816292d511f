/-
What the hash of a prompt tells.

* `Library.Imprint` — the text whose digest is the hash of a prompt;
* `imprint_of_readMetadata` — the hash that is reported is the digest of the imprint;
* `Library.Opens`, `Library.Reaches` — the prompts that can be reached through references;
* `eq_of_append_join` — how a text with hashes behind it is taken apart again;
* `Library.Imprint.inner_eq` — a common imprint of a prompt goes on with common imprints of what it
  names;
* `hash_notices` — if a prompt that can be reached has changed, then so has the hash.

Design notes: that no two texts have the same digest is assumed of the texts that are digested,
since there are more texts than digests.  A survey takes over every hash once, so prompts with the
same text count as one; hence `Library.Discernible`.
-/
import Mathlib.Data.List.Induction
import Mathlib.Data.List.Nodup
import PromptMarkup.Proofs.Paths
import PromptMarkup.Proofs.References
import PromptMarkup.Yaml.Document

namespace PromptMarkup

open PromptMarkup.Computation

/-! ### Imprints -/

namespace Library

/-- The text whose digest is the hash of a prompt: the source, and the hash of every prompt that it
names, each hash once. -/
inductive Imprint [ConfigReader] (digest : String → String) (l : Library) :
    Option String → String → String → Prop
  | intro {origin : Option String} {source : String} {t : Template} {imprints : String → String}
    (read : Template.read source = .ok t)
    (inner : ∀ name ∈ t.root.named,
      Imprint digest l (some (l.goal origin name)) (l.content (l.goal origin name))
        (imprints (l.goal origin name))) :
    Imprint digest l origin source (String.join (source :: distinctTexts
      (t.root.named.map fun name => digest (imprints (l.goal origin name)))))

section Signatures

variable [ConfigReader] {digest : String → String} {l : Library} {origin : Option String}

/-- A prompt has one imprint only. -/
theorem Imprint.unique {source x y : String} (hx : l.Imprint digest origin source x)
    (hy : l.Imprint digest origin source y) : x = y := by
  induction hx generalizing y with
  | @intro origin source t imprints read inner ih =>
    cases hy with
    | @intro _ _ t' imprints' read' inner' =>
      obtain rfl : t = t' := Except.ok.inj (read.symm.trans read')
      have hsame : ∀ name ∈ t.root.named,
          digest (imprints (l.goal origin name)) = digest (imprints' (l.goal origin name)) :=
        fun name hname => congrArg digest (ih name hname (inner' name hname))
      rw [List.map_congr_left hsame]

/-- An analysis has the hash of a prompt. -/
def Signed (digest : String → String) (l : Library) (origin : Option String) (source : String)
    (analysis : Analysis) : Prop :=
  ∃ x, l.Imprint digest origin source x ∧ analysis.hash = digest x

/-- The hashes of prompts that are named are the digests of their imprints. -/
theorem imprints_of_signed {found : List (Reference × Analysis)}
    (h : ∀ f ∈ found, l.Signed digest (some (l.goal origin f.1.name))
      (l.content (l.goal origin f.1.name)) f.2) :
    ∃ imprints : String → String,
      (∀ f ∈ found, l.Imprint digest (some (l.goal origin f.1.name))
        (l.content (l.goal origin f.1.name))
        (imprints (l.goal origin f.1.name))) ∧
      ∀ f ∈ found, f.2.hash = digest (imprints (l.goal origin f.1.name)) := by
  -- a prompt has at most one imprint, so that one can be chosen for each path
  have hexists : ∀ path, ∃ x, ∀ y, l.Imprint digest (some path) (l.content path) y → x = y := by
    intro path
    by_cases hsome : ∃ x, l.Imprint digest (some path) (l.content path) x
    · obtain ⟨x, hx⟩ := hsome
      exact ⟨x, fun y hy => hx.unique hy⟩
    · exact ⟨"", fun y hy => absurd ⟨y, hy⟩ hsome⟩
  obtain ⟨imprints, himprints⟩ := Classical.skolem.1 hexists
  refine ⟨imprints, fun f hf => ?_, fun f hf => ?_⟩
  · obtain ⟨x, hx, -⟩ := h f hf
    exact himprints _ x hx ▸ hx
  · obtain ⟨x, hx, hhash⟩ := h f hf
    rw [hhash, himprints _ x hx]

/-- An analysis has the hash of its prompt, if the analyses of the prompts that are named have
theirs. -/
theorem passes_signed (a : Analyzer) (l : Library) : l.Passes a (l.Signed a.digest) := by
  intro origin source follow cache t s found hread hsurvey hrefs hcollected hall
  obtain ⟨imprints, hinner, hhashes⟩ := imprints_of_signed hall
  have hnamed : t.root.named = found.map fun f => f.1.name := by
    rw [Node.named, ← hrefs, List.map_map]
    rfl
  have hnext : ∀ name ∈ t.root.named, l.Imprint a.digest (some (l.goal origin name))
      (l.content (l.goal origin name)) (imprints (l.goal origin name)) := by
    intro name hname
    rw [hnamed] at hname
    obtain ⟨f, hf, rfl⟩ := List.mem_map.1 hname
    exact hinner f hf
  refine ⟨_, .intro hread hnext, ?_⟩
  show a.digest (String.join (t.source :: s.hashes)) = _
  rw [Template.source_of_read hread, hcollected.hashes, hnamed, List.map_map,
    List.map_congr_left hhashes]
  rfl

end Signatures

end Library

/-- The hash that is reported is the digest of the imprint of the prompt. -/
theorem imprint_of_readMetadata [ConfigReader] {a : Analyzer} {l : Library}
    (hserves : ∀ r, a.resolver = some r → r.Serves l) {schema : Option Json} {path : Option String}
    {text : String} {m : Metadata} (h : readMetadata a schema path text = .ok m) :
    ∃ x, l.Imprint a.digest path text x ∧ m.hash = a.digest x := by
  obtain ⟨analysis, cache, hrun, rfl⟩ := readMetadata_eq_ok h
  exact Analyzer.of_analyze hserves (l.passes_signed a) hrun

/-! ### Lists of hashes -/

theorem putText_map {f : String → String} {found : List String} {x : String}
    (h : ∀ y ∈ found, f x = f y → x = y) :
    putText (found.map f) (f x) = (putText found x).map f := by
  have hmem : f x ∈ found.map f ↔ x ∈ found := by
    refine ⟨fun hx => ?_, List.mem_map_of_mem⟩
    obtain ⟨y, hy, heq⟩ := List.mem_map.1 hx
    exact h y hy heq.symm ▸ hy
  unfold putText
  by_cases hx : x ∈ found
  · rw [if_pos hx, if_pos (hmem.2 hx)]
  · rw [if_neg hx, if_neg (mt hmem.1 hx), List.map_append]
    rfl

theorem mem_putText {found : List String} {x y : String} :
    y ∈ putText found x ↔ y ∈ found ∨ y = x := by
  unfold putText
  split
  · next h => exact ⟨.inl, fun hy => hy.elim id fun heq => heq ▸ h⟩
  · simp

theorem mem_foldl_putText {xs found : List String} {y : String} :
    y ∈ xs.foldl putText found ↔ y ∈ found ∨ y ∈ xs := by
  induction xs generalizing found with
  | nil => simp
  | cons x rest ih =>
    rw [List.foldl_cons, ih, mem_putText, List.mem_cons, or_assoc]

theorem mem_distinctTexts {xs : List String} {y : String} : y ∈ distinctTexts xs ↔ y ∈ xs := by
  simp [distinctTexts, mem_foldl_putText]

theorem foldl_putText_map {f : String → String} {xs found : List String}
    (h : ∀ x ∈ found ++ xs, ∀ y ∈ found ++ xs, f x = f y → x = y) :
    (xs.map f).foldl putText (found.map f) = (xs.foldl putText found).map f := by
  induction xs generalizing found with
  | nil => rfl
  | cons x rest ih =>
    have hx : ∀ y ∈ found, f x = f y → x = y := fun y hy =>
      h x (List.mem_append_right _ List.mem_cons_self) y (List.mem_append_left _ hy)
    rw [List.map_cons, List.foldl_cons, List.foldl_cons, putText_map hx]
    refine ih fun y hy z hz => h y ?_ z ?_
    all_goals
      simp only [List.mem_append, mem_putText, List.mem_cons] at *
      tauto

/-- Where different texts have different images, each is kept once as its image is. -/
theorem distinctTexts_map {f : String → String} {xs : List String}
    (h : ∀ x ∈ xs, ∀ y ∈ xs, f x = f y → x = y) :
    distinctTexts (xs.map f) = (distinctTexts xs).map f := by
  have hnil : ∀ x ∈ [] ++ xs, ∀ y ∈ [] ++ xs, f x = f y → x = y := h
  exact foldl_putText_map hnil

theorem Digest.length_hex (s : String) : (Digest.hex s).toList.length = 64 := by
  simp [Digest.hex, Digest.ofBytes, Digest.State.words, Digest.hexWord]

/-- A text ends in a hash. -/
def EndsInHash (s : String) : Prop :=
  ∃ x, (Digest.hex x).toList <:+ s.toList

theorem endsInHash_of_append {s : String} {init more : List Char} {x : String}
    (h : s.toList = init ++ (more ++ (Digest.hex x).toList)) : EndsInHash s :=
  ⟨x, init ++ more, by rw [List.append_assoc, h]⟩

/-- Texts that do not end in a hash, and hashes behind them, can be told apart. -/
theorem eq_of_append_join {s t : String} {l m : List String} (hs : ¬ EndsInHash s)
    (ht : ¬ EndsInHash t)
    (hl : ∀ h ∈ l, ∃ x, h = Digest.hex x) (hm : ∀ h ∈ m, ∃ x, h = Digest.hex x)
    (heq : s ++ String.join l = t ++ String.join m) : s = t ∧ l = m := by
  replace heq : s.toList ++ l.flatMap String.toList = t.toList ++ m.flatMap String.toList := by
    simpa using congrArg String.toList heq
  -- the induction is on the hashes from the last one: each has the same length, and a text that
  -- ends in no hash cannot take the place of one
  induction l using List.reverseRecOn generalizing m with
  | nil =>
    rcases List.eq_nil_or_concat m with rfl | ⟨init, h, rfl⟩
    · exact ⟨String.toList_inj.1 (by simpa using heq), rfl⟩
    · obtain ⟨x, rfl⟩ := hm h (by simp)
      exact absurd (endsInHash_of_append (by simpa using heq)) hs
  | append_singleton l h ih =>
    obtain ⟨x, rfl⟩ := hl h (by simp)
    rcases List.eq_nil_or_concat m with rfl | ⟨init, h', rfl⟩
    · exact absurd (endsInHash_of_append (by simpa using heq.symm)) ht
    · obtain ⟨x', rfl⟩ := hm h' (by simp)
      have hlength : (Digest.hex x).toList.length = (Digest.hex x').toList.length := by
        rw [Digest.length_hex, Digest.length_hex]
      have hall : (s.toList ++ l.flatMap String.toList) ++ (Digest.hex x).toList =
          (t.toList ++ init.flatMap String.toList) ++ (Digest.hex x').toList := by
        simpa using heq
      -- both texts end in a hash, and what is left of them is taken apart in the same way
      obtain ⟨hinit, hlast⟩ := List.append_inj' hall hlength
      obtain ⟨rfl, rfl⟩ := ih (fun h hh => hl h (by simp [hh]))
        (fun h hh => hm h (by simp [hh])) hinit
      rw [String.toList_inj.1 hlast, List.concat_eq_append]
      exact ⟨rfl, rfl⟩

theorem not_endsInHash_of_length {s : String} (h : s.toList.length < 64) : ¬ EndsInHash s := by
  rintro ⟨x, hx⟩
  have hle := hx.length_le
  rw [Digest.length_hex] at hle
  exact Nat.not_lt.2 hle h

/-- Hashes one behind the other can be told apart. -/
theorem eq_of_join {l m : List String} (hl : ∀ h ∈ l, ∃ x, h = Digest.hex x)
    (hm : ∀ h ∈ m, ∃ x, h = Digest.hex x) (heq : String.join l = String.join m) : l = m :=
  (eq_of_append_join (not_endsInHash_of_length (s := "") (by decide))
    (not_endsInHash_of_length (s := "") (by decide)) hl hm (by rw [heq])).2

/-! ### Prompts that can be reached -/

namespace Library

/-- The prompts that are read for a prompt: itself, and the prompts that are named by a prompt that
is read. -/
inductive Opens [ConfigReader] (l : Library) (path : Option String) (text : String) :
    Option String → String → Prop
  | main : Opens l path text path text
  | reference {origin : Option String} {source : String} {t : Template} {name : String}
    (opened : Opens l path text origin source) (read : Template.read source = .ok t)
    (named : name ∈ t.root.named) :
    Opens l path text (some (l.goal origin name)) (l.content (l.goal origin name))

/-- A prompt can be reached through references, directly or through other prompts. -/
def Reaches [ConfigReader] (l : Library) (path : Option String) (text goal : String) : Prop :=
  ∃ origin source t, l.Opens path text origin source ∧ Template.read source = .ok t ∧
    ∃ name ∈ t.root.named, goal = l.goal origin name

/-- The texts that are digested for a prompt. -/
def Digested [ConfigReader] (l : Library) (path : Option String) (text x : String) : Prop :=
  ∃ origin source, l.Opens path text origin source ∧ l.Imprint Digest.hex origin source x

/-- Prompts that are named by one prompt have different texts, and the text of a prompt does not end
in a hash. -/
structure Discernible [ConfigReader] (l : Library) (path : Option String) (text : String) :
    Prop where
  apart : ∀ {origin source t}, l.Opens path text origin source → Template.read source = .ok t →
    ∀ name ∈ t.root.named, ∀ other ∈ t.root.named,
      l.content (l.goal origin name) = l.content (l.goal origin other) →
        l.goal origin name = l.goal origin other
  unsigned : ∀ {goal}, l.Reaches path text goal → ¬ EndsInHash (l.content goal)

/-- The imprint of a prompt that names prompts. -/
theorem Imprint.eq_intro [ConfigReader] {digest : String → String} {l : Library}
    {origin : Option String}
    {source x : String} {t : Template} (h : l.Imprint digest origin source x)
    (hread : Template.read source = .ok t) :
    ∃ imprints : String → String,
      (∀ name ∈ t.root.named, l.Imprint digest (some (l.goal origin name))
        (l.content (l.goal origin name)) (imprints (l.goal origin name))) ∧
      x = source ++ String.join (distinctTexts
        ((t.root.named.map (l.goal origin)).map fun p => digest (imprints p))) := by
  cases h with
  | @intro _ _ t' imprints read inner =>
    obtain rfl : t' = t := Except.ok.inj (read.symm.trans hread)
    refine ⟨imprints, inner, ?_⟩
    rw [String.join_cons, List.map_map]
    rfl

/-- An imprint begins with the text of the prompt; hashes follow. -/
theorem Imprint.eq_append [ConfigReader] {digest : String → String} {l : Library}
    {origin : Option String} {source x : String} (h : l.Imprint digest origin source x) :
    ∃ hashes, (∀ h ∈ hashes, ∃ y, h = digest y) ∧ x = source ++ String.join hashes := by
  obtain ⟨t, hread⟩ : ∃ t, Template.read source = .ok t := by
    cases h with
    | intro read inner => exact ⟨_, read⟩
  obtain ⟨imprints, -, hx⟩ := h.eq_intro hread
  refine ⟨_, fun h hh => ?_, hx⟩
  obtain ⟨p, -, rfl⟩ := List.mem_map.1 (mem_distinctTexts.1 hh)
  exact ⟨_, rfl⟩

/-- Prompts that do not end in a hash have the same text if they have the same imprint. -/
theorem Imprint.source_eq [ConfigReader] {l l' : Library} {origin origin' : Option String}
    {source source' x : String}
    (h : l.Imprint Digest.hex origin source x) (h' : l'.Imprint Digest.hex origin' source' x)
    (hs : ¬ EndsInHash source) (hs' : ¬ EndsInHash source') : source = source' := by
  obtain ⟨hashes, hhashes, rfl⟩ := h.eq_append
  obtain ⟨hashes', hhashes', heq⟩ := h'.eq_append
  exact (eq_of_append_join hs hs' hhashes hhashes' heq).1

/-- The library in which the prompts hold other texts. -/
def revised (l : Library) (content : String → String) : Library :=
  { l with content := content }

/-- No two texts that are digested with the one or the other library have the same digest. -/
def NoCollision [ConfigReader] (l l' : Library) (path : Option String) (text : String) : Prop :=
  ∀ x y, l.Digested path text x ∨ l'.Digested path text x → l.Digested path text y ∨
    l'.Digested path text y →
    Digest.hex x = Digest.hex y → x = y

section Changes

variable [ConfigReader] {l l' : Library} {content : String → String} {path : Option String}
  {text : String}

theorem NoCollision.symm (h : NoCollision l l' path text) : NoCollision l' l path text :=
  fun x y hx hy => h x y hx.symm hy.symm

/-- Prompts that are named by one prompt have different hashes. -/
theorem Discernible.injective (h : l.Discernible path text)
    (hcollisions : NoCollision l l' path text)
    {origin : Option String} {source : String} {t : Template} {imprints : String → String}
    (hopened : l.Opens path text origin source) (hread : Template.read source = .ok t)
    (hinner : ∀ name ∈ t.root.named, l.Imprint Digest.hex (some (l.goal origin name))
      (l.content (l.goal origin name)) (imprints (l.goal origin name))) :
    ∀ p ∈ t.root.named.map (l.goal origin), ∀ q ∈ t.root.named.map (l.goal origin),
      Digest.hex (imprints p) = Digest.hex (imprints q) → p = q := by
  intro p hp q hq heq
  obtain ⟨name, hname, rfl⟩ := List.mem_map.1 hp
  obtain ⟨other, hother, rfl⟩ := List.mem_map.1 hq
  have hsame : imprints (l.goal origin name) = imprints (l.goal origin other) :=
    hcollisions _ _ (.inl ⟨_, _, .reference hopened hread hname, hinner name hname⟩)
      (.inl ⟨_, _, .reference hopened hread hother, hinner other hother⟩) heq
  refine h.apart hopened hread name hname other hother ?_
  exact (hinner name hname).source_eq (hsame ▸ hinner other hother)
    (h.unsigned ⟨_, _, _, hopened, hread, name, hname, rfl⟩)
    (h.unsigned ⟨_, _, _, hopened, hread, other, hother, rfl⟩)

/-- If a prompt has one imprint with both libraries, then so has every prompt that it names, and
these hold the same texts. -/
theorem Imprint.inner_eq (h : l.Discernible path text)
    (h' : (l.revised content).Discernible path text)
    (hcollisions : NoCollision l (l.revised content) path text) {origin : Option String}
    {source : String} {t : Template} (hopened : l.Opens path text origin source)
    (hopened' : (l.revised content).Opens path text origin source)
    (hread : Template.read source = .ok t) {x : String} (hx : l.Imprint Digest.hex origin source x)
    (hx' : (l.revised content).Imprint Digest.hex origin source x) {name : String}
    (hname : name ∈ t.root.named) :
    l.content (l.goal origin name) = content (l.goal origin name) ∧
      ∃ y, l.Imprint Digest.hex (some (l.goal origin name)) (l.content (l.goal origin name)) y ∧
        (l.revised content).Imprint Digest.hex (some (l.goal origin name))
        (content (l.goal origin name)) y := by
  obtain ⟨imprints, hinner, rfl⟩ := hx.eq_intro hread
  obtain ⟨imprints', hinner', heq⟩ := hx'.eq_intro hread
  -- what stands behind the source are hashes only
  have hhashes : ∀ (f : String → String) (xs : List String),
      ∀ h ∈ distinctTexts (xs.map fun p => Digest.hex (f p)), ∃ y, h = Digest.hex y := by
    intro f xs h hh
    obtain ⟨p, -, rfl⟩ := List.mem_map.1 (mem_distinctTexts.1 hh)
    exact ⟨_, rfl⟩
  -- the sources are the same text, so that the lists of hashes are the same
  have hlists := eq_of_join (hhashes _ _) (hhashes _ _) ((String.append_right_inj source).1 heq)
  rw [distinctTexts_map (h.injective hcollisions hopened hread hinner),
    distinctTexts_map (h'.injective hcollisions.symm hopened' hread hinner')] at hlists
  have hmem : l.goal origin name ∈ distinctTexts (t.root.named.map (l.goal origin)) :=
    mem_distinctTexts.2 (List.mem_map_of_mem hname)
  -- the hash at the place of this prompt has one imprint on both sides
  have hsame : imprints (l.goal origin name) = imprints' (l.goal origin name) :=
    hcollisions _ _ (.inl ⟨_, _, .reference hopened hread hname, hinner name hname⟩)
      (.inr ⟨_, _, .reference hopened' hread hname, hinner' name hname⟩)
      (List.map_inj_left.1 hlists _ hmem)
  refine ⟨?_, _, hinner name hname, hsame ▸ hinner' name hname⟩
  exact (hinner name hname).source_eq (hsame ▸ hinner' name hname)
    (h.unsigned ⟨_, _, _, hopened, hread, name, hname, rfl⟩)
    (h'.unsigned ⟨_, _, _, hopened', hread, name, hname, rfl⟩)

/-- If a prompt has one imprint with both libraries, then the same prompts are read for it. -/
theorem Opens.revised (h : l.Discernible path text) (h' : (l.revised content).Discernible path text)
    (hcollisions : NoCollision l (l.revised content) path text) {x : String}
    (hx : l.Imprint Digest.hex path text x)
    (hx' : (l.revised content).Imprint Digest.hex path text x)
    {origin : Option String} {source : String} (hopened : l.Opens path text origin source) :
    (l.revised content).Opens path text origin source ∧
      ∃ y, l.Imprint Digest.hex origin source y ∧
      (l.revised content).Imprint Digest.hex origin source y := by
  induction hopened with
  | main => exact ⟨.main, x, hx, hx'⟩
  | @reference origin source t name opened read named ih =>
    obtain ⟨hopened', y, hy, hy'⟩ := ih
    obtain ⟨hcontent, z, hz, hz'⟩ :=
      Imprint.inner_eq h h' hcollisions opened hopened' read hy hy' named
    have hnext : (l.revised content).Opens path text (some (l.goal origin name))
        (content (l.goal origin name)) := .reference hopened' read named
    rw [hcontent]
    exact ⟨hnext, z, hcontent ▸ hz, hz'⟩

/-- If a prompt has one imprint with both libraries, then all prompts that can be reached are the
same. -/
theorem Reaches.content_eq (h : l.Discernible path text)
    (h' : (l.revised content).Discernible path text)
    (hcollisions : NoCollision l (l.revised content) path text) {x : String}
    (hx : l.Imprint Digest.hex path text x)
    (hx' : (l.revised content).Imprint Digest.hex path text x)
    {goal : String} (hgoal : l.Reaches path text goal) : l.content goal = content goal := by
  obtain ⟨origin, source, t, hopened, hread, name, hname, rfl⟩ := hgoal
  obtain ⟨hopened', y, hy, hy'⟩ := Opens.revised h h' hcollisions hx hx' hopened
  exact (Imprint.inner_eq h h' hcollisions hopened hopened' hread hy hy' hname).1

end Changes

end Library

/-- If a prompt that can be reached has changed, then the hash has changed. -/
theorem hash_notices [ConfigReader] {l : Library} {content : String → String} {r r' : Resolver}
    (hserves : r.Serves l)
    (hserves' : r'.Serves (l.revised content)) {schema : Option Json} {path : Option String}
    {text : String} {m m' : Metadata} (h : readMetadata (.ofResolver r) schema path text = .ok m)
    (h' : readMetadata (.ofResolver r') schema path text = .ok m')
    (hdiscernible : l.Discernible path text)
    (hdiscernible' : (l.revised content).Discernible path text)
    (hcollisions : Library.NoCollision l (l.revised content) path text) {goal : String}
    (hgoal : l.Reaches path text goal ∨ (l.revised content).Reaches path text goal)
    (hchanged : content goal ≠ l.content goal) : m.hash ≠ m'.hash := by
  intro heq
  obtain ⟨x, hx, hhash⟩ := imprint_of_readMetadata (fun r₁ hr => Option.some.inj hr ▸ hserves) h
  obtain ⟨x', hx', hhash'⟩ := imprint_of_readMetadata
    (fun r₁ hr => Option.some.inj hr ▸ hserves') h'
  rw [hhash, hhash'] at heq
  obtain rfl : x = x' :=
    hcollisions _ _ (.inl ⟨_, _, .main, hx⟩) (.inr ⟨_, _, .main, hx'⟩) heq
  rcases hgoal with hgoal | hgoal
  · exact hchanged (hgoal.content_eq hdiscernible hdiscernible' hcollisions hx hx').symm
  · -- the first library is a revision of the second one
    exact hchanged (hgoal.content_eq hdiscernible' hdiscernible hcollisions.symm hx' hx)

/-! ### Resolvers -/

namespace Resolver

/-- Prompts in memory are found under their own paths. -/
def memory (prompts : Fields String) : Library :=
  ⟨id, fun path => ((canonical prompts).get? path).getD ""⟩

theorem serves_memory (prompts : Fields String) : (ofPrompts prompts).Serves (memory prompts) := by
  have hfind : ∀ {name origin p}, (ofPrompts prompts).find name origin = .ok (some p) →
      p.path = Path.join name origin ∧ (canonical prompts).get? p.path = some p.text := by
    intro name origin p h
    obtain h := Except.ok.inj (eq_of_listed h)
    obtain ⟨text, htext, rfl⟩ := Option.map_eq_some_iff.1 h
    exact ⟨rfl, htext⟩
  refine ⟨fun h => (hfind h).1, fun h => ?_, fun _ => rfl⟩
  show _ = ((canonical prompts).get? _).getD ""
  rw [(hfind h).2]
  rfl

/-- Prompts in files are found under their own paths. -/
def directory (files : Files) (root : String) : Library :=
  ⟨id, fun path => (files.read? (Path.file root path)).getD ""⟩

theorem serves_directory (files : Files) (root : String) (origin : Option String) :
    (ofFiles files root origin).Serves (directory files root) := by
  have hfind : ∀ {name origin' p}, (ofFiles files root origin).find name origin' = .ok (some p) →
      p.path = Path.join name origin' ∧ files.read? (Path.file root p.path) = some p.text := by
    intro name origin' p h
    unfold ofFiles ofListed at h
    dsimp only at h
    replace h := eq_of_listed h
    unfold Files.find at h
    dsimp only at h
    split at h
    · exact nomatch h
    · obtain ⟨text, htext, rfl⟩ := Option.map_eq_some_iff.1 (Except.ok.inj h)
      exact ⟨rfl, htext⟩
  refine ⟨fun h => (hfind h).1, fun h => ?_, fun _ => rfl⟩
  show _ = (files.read? (Path.file root _)).getD ""
  rw [(hfind h).2]
  rfl

end Resolver

/-! ### Prompts that name prompts without references -/

/-- The prompts that a text names, if it can be read. -/
def namedIn [ConfigReader] (text : String) : Option (List String) :=
  (Template.read text).toOption.map fun t => t.root.named

theorem namedIn_eq_some [ConfigReader] {text : String} {names : List String}
    (h : namedIn text = some names) :
    ∃ t, Template.read text = .ok t ∧ t.root.named = names := by
  unfold namedIn at h
  rcases hread : Template.read text with p | t
  · rw [hread] at h
    exact nomatch h
  · rw [hread] at h
    exact ⟨t, rfl, Option.some.inj h⟩

namespace Library

variable [ConfigReader] {digest : String → String} {l : Library} {origin path : Option String}
  {source text x : String} {names : List String}

theorem Imprint.eq_source (h : l.Imprint digest origin source x)
    (hnone : namedIn source = some []) :
    x = source := by
  obtain ⟨t, hread, hnames⟩ := namedIn_eq_some hnone
  obtain ⟨imprints, -, rfl⟩ := h.eq_intro hread
  rw [hnames]
  exact String.append_empty

theorem Imprint.eq_flat (h : l.Imprint digest origin source x)
    (hnames : namedIn source = some names)
    (hflat : ∀ name ∈ names, namedIn (l.content (l.goal origin name)) = some []) :
    x = source ++ String.join (distinctTexts
      ((names.map (l.goal origin)).map fun p => digest (l.content p))) := by
  obtain ⟨t, hread, rfl⟩ := namedIn_eq_some hnames
  obtain ⟨imprints, hinner, rfl⟩ := h.eq_intro hread
  have hsame : ∀ p ∈ t.root.named.map (l.goal origin),
      digest (imprints p) = digest (l.content p) := by
    intro p hp
    obtain ⟨name, hname, rfl⟩ := List.mem_map.1 hp
    rw [(hinner name hname).eq_source (hflat name hname)]
  rw [List.map_congr_left hsame]

theorem Opens.eq_flat (h : l.Opens path text origin source) (hnames : namedIn text = some names)
    (hflat : ∀ name ∈ names, namedIn (l.content (l.goal path name)) = some []) :
    origin = path ∧ source = text ∨
      ∃ name ∈ names, origin = some (l.goal path name) ∧ source = l.content (l.goal path name) := by
  induction h with
  | main => exact .inl ⟨rfl, rfl⟩
  | @reference origin source t name opened read named ih =>
    rcases ih with ⟨rfl, rfl⟩ | ⟨other, hother, rfl, rfl⟩
    · obtain ⟨t', hread, rfl⟩ := namedIn_eq_some hnames
      obtain rfl : t' = t := Except.ok.inj (hread.symm.trans read)
      exact .inr ⟨name, named, rfl, rfl⟩
    · obtain ⟨t', hread, hnone⟩ := namedIn_eq_some (hflat other hother)
      obtain rfl : t' = t := Except.ok.inj (hread.symm.trans read)
      rw [hnone] at named
      exact nomatch named

theorem Digested.eq_flat (h : l.Digested path text x) (hnames : namedIn text = some names)
    (hflat : ∀ name ∈ names, namedIn (l.content (l.goal path name)) = some []) :
    x = text ++ String.join (distinctTexts
        ((names.map (l.goal path)).map fun p => Digest.hex (l.content p))) ∨
      ∃ name ∈ names, x = l.content (l.goal path name) := by
  obtain ⟨origin, source, hopened, himprint⟩ := h
  rcases hopened.eq_flat hnames hflat with ⟨rfl, rfl⟩ | ⟨name, hname, rfl, rfl⟩
  · exact .inl (himprint.eq_flat hnames hflat)
  · exact .inr ⟨name, hname, himprint.eq_source (hflat name hname)⟩

end Library

/-! ### Runs -/

/-- A prompt that names one prompt. -/
def oneReference : String :=
  "<ref prompt='a' />"

section OneReference

variable {s : String}

theorem namedIn_oneReference : namedIn oneReference = some ["a"] := by
  decide +kernel

theorem content_oneReference (s : String) :
    (Resolver.memory [("a", s)]).content ((Resolver.memory [("a", s)]).goal none "a") = s :=
  rfl

theorem flat_oneReference (hs : namedIn s = some []) : ∀ name ∈ ["a"],
    namedIn ((Resolver.memory [("a", s)]).content ((Resolver.memory [("a", s)]).goal none name)) =
      some [] := by
  intro name hname
  obtain rfl := List.mem_singleton.1 hname
  rw [content_oneReference, hs]

theorem digested_oneReference (hs : namedIn s = some []) {x : String}
    (h : (Resolver.memory [("a", s)]).Digested none oneReference x) :
    x = oneReference ++ Digest.hex s ∨ x = s := by
  rcases h.eq_flat namedIn_oneReference (flat_oneReference hs) with rfl | ⟨name, hname, rfl⟩
  · refine .inl (congrArg (oneReference ++ ·) ?_)
    rw [List.map_singleton, List.map_singleton, content_oneReference]
    simp [distinctTexts, putText]
  · obtain rfl := List.mem_singleton.1 hname
    exact .inr (content_oneReference s)

theorem discernible_oneReference (hs : namedIn s = some []) (hlength : s.toList.length < 64) :
    (Resolver.memory [("a", s)]).Discernible none oneReference := by
  have hnamed : ∀ {origin source t},
    (Resolver.memory [("a", s)]).Opens none oneReference origin source →
      Template.read source = .ok t → ∀ name ∈ t.root.named, origin = none ∧ name = "a" := by
    intro origin source t hopened hread name hname
    -- only the main text refers to a prompt, and only to this one
    rcases hopened.eq_flat namedIn_oneReference (flat_oneReference hs) with ⟨rfl, rfl⟩ |
      ⟨other, hother, rfl, rfl⟩
    · obtain ⟨t', hread', hnames⟩ := namedIn_eq_some namedIn_oneReference
      obtain rfl : t' = t := Except.ok.inj (hread'.symm.trans hread)
      rw [hnames] at hname
      exact ⟨rfl, List.mem_singleton.1 hname⟩
    · obtain ⟨t', hread', hnone⟩ := namedIn_eq_some (flat_oneReference hs other hother)
      obtain rfl : t' = t := Except.ok.inj (hread'.symm.trans hread)
      rw [hnone] at hname
      exact nomatch hname
  refine ⟨fun hopened hread name hname other hother _ => ?_,
    fun ⟨_, _, _, hopened, hread, name, hname, hgoal⟩ => ?_⟩
  · rw [(hnamed hopened hread name hname).2, (hnamed hopened hread other hother).2]
  · obtain ⟨rfl, rfl⟩ := hnamed hopened hread name hname
    rw [hgoal, content_oneReference]
    exact not_endsInHash_of_length hlength

end OneReference

/-- The digests of all texts that are digested for the prompt, with two texts of the prompt that it
names. -/
theorem nodup_oneReference :
    ([oneReference ++ Digest.hex "x", "x", oneReference ++ Digest.hex "z", "z"].map
    Digest.hex).Nodup := by
  -- the digests are evaluated one by one, those of the prompts before those that hold them
  have hx : Digest.hex "x" =
    "2d711642b726b04401627ca9fbac32f5c8530fb1903cc4db02258717921a4881" := by
    decide +kernel
  have hz : Digest.hex "z" =
    "594e519ae499312b29433b7dd8a97ff068defcba9755b6d5d00e84c524d67b06" := by
    decide +kernel
  have hx' :
    Digest.hex
    (oneReference ++ "2d711642b726b04401627ca9fbac32f5c8530fb1903cc4db02258717921a4881") =
      "605ff75df965b2c53b06a74015ce4a39942963ccca1483f7121a8ccee24594bb" := by
    decide +kernel
  have hz' :
    Digest.hex
    (oneReference ++ "594e519ae499312b29433b7dd8a97ff068defcba9755b6d5d00e84c524d67b06") =
      "ce25c794b3d663d1304e955a08b2c0d2fdc14804802abb8334b7c3d4ec045a6a" := by
    decide +kernel
  simp only [List.map_cons, List.map_nil, hx, hz, hx', hz']
  decide

theorem hash_notices_oneReference :
    ∃ m m',
      readMetadata (.ofResolver (some (.ofPrompts [("a", "x")]))) none none oneReference = .ok m ∧
      readMetadata (.ofResolver (some (.ofPrompts [("a", "z")]))) none none oneReference = .ok m' ∧
      m.hash ≠ m'.hash := by
  -- whether analysis succeeds is evaluated for a bounded nesting
  have hok : ∀ s ∈ ["x", "z"],
      (readMetadata (.ofResolver (some (.ofPrompts [("a", s)]))) none none oneReference).isOk =
        true := by
    intro s hs
    rw [readMetadata, Analyzer.analyze, Analyzer.analyzeIn_twice]
    revert s
    decide +kernel
  have hx : namedIn "x" = some [] := by decide +kernel
  have hz : namedIn "z" = some [] := by decide +kernel
  have hmem : ∀ x, (Resolver.memory [("a", "x")]).Digested none oneReference x ∨
      (Resolver.memory [("a", "z")]).Digested none oneReference x →
      x ∈ [oneReference ++ Digest.hex "x", "x", oneReference ++ Digest.hex "z", "z"] := by
    rintro x (h | h)
    · rcases digested_oneReference hx h with rfl | rfl <;> simp
    · rcases digested_oneReference hz h with rfl | rfl <;> simp
  have hreaches : (Resolver.memory [("a", "x")]).Reaches none oneReference "a" := by
    obtain ⟨t, hread, hnames⟩ := namedIn_eq_some namedIn_oneReference
    exact ⟨none, oneReference, t, .main, hread, "a", by simp [hnames], rfl⟩
  rcases h : readMetadata (.ofResolver (some (.ofPrompts [("a", "x")]))) none none oneReference with
    p | m
  · have hfirst := hok "x" (by simp)
    rw [h] at hfirst
    cases hfirst
  · rcases h' : readMetadata (.ofResolver (some (.ofPrompts [("a", "z")]))) none none
      oneReference with p | m'
    · have hsecond := hok "z" (by simp)
      rw [h'] at hsecond
      cases hsecond
    -- the four digested texts do not collide, and the texts of `a` differ
    · refine ⟨m, m', rfl, rfl, hash_notices (Resolver.serves_memory [("a", "x")])
        (Resolver.serves_memory [("a", "z")]) h h' (discernible_oneReference hx (by decide))
        (discernible_oneReference hz (by decide)) (fun x y hx hy heq => ?_) (.inl hreaches) ?_⟩
      · exact List.inj_on_of_nodup_map nodup_oneReference (hmem x hx) (hmem y hy) heq
      · decide

/-- A prompt that names three prompts. -/
def threeReferences : String :=
  "<ref prompt='a' /><ref prompt='b' /><ref prompt='c' />"

/-- The third prompt changes from a copy of the first one to a copy of the second one, and the hash
stays. -/
theorem hash_misses_copy :
    ∃ m m',
      readMetadata (.ofResolver (some (.ofPrompts [("a", "x"), ("b", "y"), ("c", "x")]))) none none
        threeReferences = .ok m ∧
      readMetadata (.ofResolver (some (.ofPrompts [("a", "x"), ("b", "y"), ("c", "y")]))) none none
        threeReferences = .ok m' ∧
      m.references.toList = ["a", "b", "c"] ∧ m'.references.toList = ["a", "b", "c"] ∧
      m.hash = m'.hash := by
  have hok : ∀ s ∈ ["x", "y"],
      (readMetadata (.ofResolver (some (.ofPrompts [("a", "x"), ("b", "y"), ("c", s)]))) none none
        threeReferences).toOption.any (fun m => m.references.toList = ["a", "b", "c"]) = true := by
    intro s hs
    rw [readMetadata, Analyzer.analyze, Analyzer.analyzeIn_twice]
    revert s
    decide +kernel
  have hnames : namedIn threeReferences = some ["a", "b", "c"] := by decide +kernel
  have hflat : ∀ s ∈ ["x", "y"], ∀ name ∈ ["a", "b", "c"],
      namedIn ((Resolver.memory [("a", "x"), ("b", "y"), ("c", s)]).content
        ((Resolver.memory [("a", "x"), ("b", "y"), ("c", s)]).goal none name)) = some [] := by
    decide +kernel
  -- the hash is that of the source and the distinct hashes of the three prompts
  have hhash : ∀ s ∈ ["x", "y"], ∀ m, readMetadata (.ofResolver
      (some (.ofPrompts [("a", "x"), ("b", "y"), ("c", s)]))) none none threeReferences = .ok m →
        m.hash = Digest.hex (threeReferences ++ String.join
          (distinctTexts [Digest.hex "x", Digest.hex "y", Digest.hex s])) := by
    intro s hs m h
    obtain ⟨x, hx, hhash⟩ := imprint_of_readMetadata
      (fun r hr => Option.some.inj hr ▸ Resolver.serves_memory [("a", "x"), ("b", "y"), ("c", s)]) h
    rw [hhash, hx.eq_flat hnames (hflat s hs)]
    rfl
  -- a hash that is in the list already is dropped, wherever it comes from
  have hcopy : ∀ x y, distinctTexts [x, y, x] = distinctTexts [x, y, y] := by
    intro x y
    by_cases hxy : y = x
    · rw [hxy]
    · simp [distinctTexts, putText, hxy]
  have hfirst := hok "x" (by simp)
  have hsecond := hok "y" (by simp)
  rcases h : readMetadata (.ofResolver (some (.ofPrompts [("a", "x"), ("b", "y"), ("c", "x")])))
    none none
    threeReferences with p | m
  · rw [h] at hfirst
    cases hfirst
  · rcases h' : readMetadata (.ofResolver (some (.ofPrompts [("a", "x"), ("b", "y"), ("c", "y")])))
      none none
      threeReferences with p | m'
    · rw [h'] at hsecond
      cases hsecond
    · rw [h] at hfirst
      rw [h'] at hsecond
      refine ⟨m, m', rfl, rfl, of_decide_eq_true hfirst, of_decide_eq_true hsecond, ?_⟩
      rw [hhash "x" (by simp) m h, hhash "y" (by simp) m' h', hcopy]

end PromptMarkup

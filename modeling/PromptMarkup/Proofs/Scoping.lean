/-
The names of an expression, found without evaluating it, and the names that its evaluation sees.

* `Expr.declares`, `Expr.skips` — the names that are declared in an expression, and in parts that
  may be left out;
* `Expr.late` — the names of the target of an assignment that its value declares;
* `Follows` — an evaluation sees the names that going through something declares;
* `Expr.follows_mention` — evaluating an expression follows going through it;
* `Expr.scoping_agrees` — names that are declared are visible, except for those that are skipped or
  late.

Design notes: going through an expression and evaluating it are compared step by step, by
`Follows.bind`.  A part that is left out has been gone through nevertheless, and so its declarations
are among the names that are excused.  A target is evaluated in front of the value but gone through
behind it; meanwhile, the names that the value declares are excused too, and `Follows.swap` says
which of them remain.
-/
import PromptMarkup.Proofs.Skipping

namespace PromptMarkup

open PromptMarkup.Computation

/-! ### Declarations -/

namespace Expr

/-- The names that are declared in an expression. -/
def declares (e : Expr) : List String :=
  e.subterms.filterMap declared?

/-- The names that are declared in parts that may be left out. -/
def skips (e : Expr) : List String :=
  e.subterms.flatMap fun x => x.loose.flatMap declares

/-- The names in the target of an assignment that its value declares.  A declaration has a new name
for its target. -/
def lateHere : Expr → List String
  | assignment _ .assign (identifier _ _) _ => []
  | assignment _ _ target value => target.names.filter (· ∈ value.declares)
  | _ => []

/-- The names in targets of assignments that are declared by the value, which is evaluated behind
the target. -/
def late (e : Expr) : List String :=
  e.subterms.flatMap lateHere

theorem skips_subset_of_part {e x : Expr} (hx : x ∈ e.parts) : x.skips ⊆ e.skips := by
  intro name hname
  obtain ⟨y, hy, hskipped⟩ := List.mem_flatMap.1 hname
  exact List.mem_flatMap.2 ⟨y, mem_subterms_of_part hx hy, hskipped⟩

theorem late_subset_of_part {e x : Expr} (hx : x ∈ e.parts) : x.late ⊆ e.late := by
  intro name hname
  obtain ⟨y, hy, hlate⟩ := List.mem_flatMap.1 hname
  exact List.mem_flatMap.2 ⟨y, mem_subterms_of_part hx hy, hlate⟩

theorem declares_subset_skips {e x : Expr} (hx : x ∈ e.loose) : x.declares ⊆ e.skips :=
  fun _ hname => List.mem_flatMap.2 ⟨e, mem_subterms_self e, List.mem_flatMap.2 ⟨x, hx, hname⟩⟩

/-- What is declared in an expression is one of its names. -/
theorem declares_subset_names (e : Expr) : e.declares ⊆ e.names := by
  intro name hname
  obtain ⟨x, hx, hdeclared⟩ := List.mem_filterMap.1 hname
  unfold declared? at hdeclared
  split at hdeclared
  · next s t other value =>
    obtain rfl := Option.some.inj hdeclared
    have htarget : identifier t other ∈ (assignment s .assign (identifier t other) value).parts :=
      List.mem_cons_self
    exact List.mem_filterMap.2
      ⟨_, mem_subterms_trans hx (mem_subterms_of_part htarget (mem_subterms_self _)), rfl⟩
  · exact nomatch hdeclared

/-- The target of an assignment that is no declaration, and its value. -/
theorem mem_late {s : Span} {op : AssignOp} {target value : Expr} {name : String}
    (hplain : (assignment s op target value).isDeclaration = false) (htarget : name ∈ target.names)
    (hvalue : name ∈ value.declares) : name ∈ (assignment s op target value).late := by
  refine List.mem_flatMap.2 ⟨_, mem_subterms_self _, ?_⟩
  unfold lateHere
  split
  · next heq =>
    obtain ⟨rfl, rfl, rfl, rfl⟩ := Expr.assignment.inj heq
    exact nomatch hplain
  · next heq =>
    obtain ⟨rfl, rfl, rfl, rfl⟩ := Expr.assignment.inj heq
    exact List.mem_filter.2 ⟨htarget, decide_eq_true hvalue⟩
  · next hother => exact absurd rfl (hother _ _ _ _)

end Expr

/-! ### Going through an expression -/

/-- Names may become others by going through something that declares the names `C`: names are only
added, and what is new is among `C` or is a parameter. -/
structure Names.Grows (C : List String) (N M : Names) : Prop where
  parameters : ∀ name ∈ N.parameters, name ∈ M.parameters
  declared : ∀ name ∈ N.declared, name ∈ M.declared
  new : ∀ name ∈ M.declared, name ∈ N.declared ∨ name ∈ C ∨ name ∈ M.parameters

namespace Names.Grows

variable {C C' : List String} {N M K : Names}

theorem refl (N : Names) : N.Grows C N :=
  ⟨fun _ h => h, fun _ h => h, fun _ h => .inl h⟩

theorem trans (h : N.Grows C M) (h' : M.Grows C K) : N.Grows C K := by
  refine ⟨fun name hN => h'.parameters name (h.parameters name hN),
    fun name hN => h'.declared name (h.declared name hN), fun name hK => ?_⟩
  rcases h'.new name hK with hM | hnew
  · rcases h.new name hM with hN | hC | hp
    · exact .inl hN
    · exact .inr (.inl hC)
    · exact .inr (.inr (h'.parameters name hp))
  · exact .inr hnew

theorem mono (h : N.Grows C M) (hC : C ⊆ C') : N.Grows C' M :=
  { h with new := fun name hM =>
    (h.new name hM).imp_right fun hnew => hnew.imp_left fun hname => hC hname }

theorem read (N : Names) (name : String) : N.Grows C (N.read name) := by
  unfold Names.read
  split
  · exact refl N
  · refine ⟨fun other h => NameSet.mem_insert.2 (.inr h),
      fun other h => NameSet.mem_insert.2 (.inr h), fun other h => ?_⟩
    rcases NameSet.mem_insert.1 h with rfl | h
    · exact .inr (.inr (NameSet.mem_insert.2 (.inl rfl)))
    · exact .inl h

theorem declare (N : Names) {name : String} (hC : name ∈ C) : N.Grows C (N.declare name) := by
  refine ⟨fun other h => h, fun other h => NameSet.mem_insert.2 (.inr h), fun other h => ?_⟩
  rcases NameSet.mem_insert.1 h with rfl | h
  · exact .inr (.inl hC)
  · exact .inl h

/-- If no parameter was added at the end, none was added on the way. -/
theorem parameters_eq (h : N.Grows C M) (h' : M.Grows C' K) (hKN : K.parameters = N.parameters) :
    M.parameters = N.parameters ∧ K.parameters = M.parameters := by
  have hMN : M.parameters = N.parameters :=
    NameSet.toList_ext fun name => ⟨fun hM => hKN ▸ h'.parameters name hM, h.parameters name⟩
  exact ⟨hMN, hKN.trans hMN.symm⟩

end Names.Grows

/-- The law of going through what declares some names. -/
def growing (C : List String) : Law Problem Names where
  done N M := N.Grows C M
  stop N _ M := N.Grows C M
  refl := Names.Grows.refl
  trans := Names.Grows.trans
  back := Names.Grows.trans

theorem Growing.mono {C C' : List String} {x : Naming Unit} (h : Respects (growing C) x)
    (hC : C ⊆ C') :
    Respects (growing C') x :=
  h.weaken (fun _ _ h => h.mono hC) fun _ _ _ h => h.mono hC

/-- Going through an expression, or through a target, adds the names that are declared there and
parameters. -/
theorem Expr.growing_mention {e : Expr} {C : List String} (hC : e.declares ⊆ C) :
    Respects (growing C) (mention e) ∧ Respects (growing C) (mentionTarget e) := by
  have hjoins : Joins (Respects (growing C)) := ⟨.pure _, fun hx hy => hx.bind fun _ => hy⟩
  refine hjoins.mention
    (fun _ name _ => .modify fun N => .read N name) (fun s t name value hx => ?_)
    fun _ _ _ => .throw fun N => .refl N
  exact .modify fun N => .declare N (hC (List.mem_filterMap.2 ⟨_, hx, rfl⟩))

/-! ### Evaluating along the names -/

/-- The law of a step of an evaluation that misses no name. -/
def calm : Law Problem Scope where
  done := Scope.Leads
  stop s p t := s.Leads t ∧ (s.Valid → ∀ name, p.fault ≠ .undeclared name)
  refl := Scope.Leads.refl
  trans := Scope.Leads.trans
  back h h' := ⟨h.trans h'.1, fun hs => h'.2 (h.valid hs)⟩

namespace Evaluation

/-- What reads no name and misses none. -/
theorem calm_of_evaluating {α : Type} {y : Evaluation α}
    (h : Respects (evaluating False True []) y) :
    Respects calm y :=
  h.weaken (fun _ _ hd => hd.1) fun _ _ _ hs =>
    ⟨hs.1, fun hvalid name hname => List.not_mem_nil (hs.2.2 trivial hvalid name hname).1⟩

theorem calm_ofResult {α : Type} {x : Except Fault α} (h : SoundResult x) (span : Span) :
    Respects calm (ofResult span x) :=
  calm_of_evaluating (respects_ofResult h span)

/-- Writing misses no name; one that is not visible gets a slot. -/
theorem calm_writePath (name : String) (keys : List String) (v : Value) (span : Span) :
    Respects calm (writePath name keys v span) :=
  Respects.bind (Respects.look _) fun _ =>
    Respects.bind (calm_ofResult (Value.sound_write _ _ _) span) fun _ =>
    Respects.modify fun s => s.leads_set name _

end Evaluation

/-- Names that were gone through and a scope in which they are visible, but for some that are
excused. -/
structure Meets (E : List String) (N : Names) (s : Scope) : Prop where
  valid : s.Valid
  visible : ∀ name ∈ N.declared, s.sees name = true ∨ name ∈ E
  parameters : ∀ name ∈ N.parameters, name ∈ N.declared

namespace Meets

variable {E E' C : List String} {N M : Names} {s t : Scope}

theorem leads (h : Meets E N s) (ht : s.Leads t) : Meets E N t :=
  ⟨ht.valid h.valid, fun name hname => (h.visible name hname).imp_left ht.sees, h.parameters⟩

/-- Names that were added without a parameter. -/
theorem grows (h : Meets E N s) (hgrows : N.Grows C M) (hparameters : M.parameters = N.parameters)
    (hC : ∀ name ∈ C, t.sees name = true ∨ name ∈ E) (ht : s.Leads t) : Meets E M t := by
  refine ⟨ht.valid h.valid, fun name hname => ?_, fun name hname => ?_⟩
  · rcases hgrows.new name hname with hN | hnew | hp
    · exact (h.leads ht).visible name hN
    · exact hC name hnew
    · exact (h.leads ht).visible name (h.parameters name (hparameters ▸ hp))
  · exact hgrows.declared name (h.parameters name (hparameters ▸ hname))

end Meets

/-- An evaluation sees the names that something declares which was gone through without a new
parameter.  What is declared behind it is visible behind the evaluation or excused, and the
evaluation misses only names of `D` that are excused. -/
structure Follows (E D : List String) {α : Type} (x : Naming Unit) (y : Evaluation α) : Prop where
  grows : Respects (growing D) x
  leads : Respects leading y
  keeps : ∀ {N M s t a}, Meets E N s → runFrom N x = (.ok (), M) → M.parameters = N.parameters →
    runFrom s y = (.ok a, t) → Meets E M t
  misses : ∀ {N M s t p name}, Meets E N s → runFrom N x = (.ok (), M) →
    M.parameters = N.parameters →
    runFrom s y = (.error p, t) → p.fault = .undeclared name → name ∈ E ∧ name ∈ D ∧
    s.sees name = false

namespace Follows

variable {α β : Type} {E D D' C : List String} {x x' : Naming Unit} {y : Evaluation α}
  {f : α → Evaluation β}

theorem mono (h : Follows E D x y) (hD : D ⊆ D') : Follows E D' x y := by
  refine ⟨Growing.mono h.grows hD, h.leads, h.keeps, ?_⟩
  intro N M s t p name hmeets hx hparameters hy hname
  obtain ⟨hE, hmem, hsees⟩ := h.misses hmeets hx hparameters hy hname
  exact ⟨hE, hD hmem, hsees⟩

/-- A name that is not visible later on was not visible before. -/
theorem not_sees {s t : Scope} {a : α} {name : String} (h : Respects leading y)
    (hy : runFrom s y = (.ok a, t)) (ht : t.sees name = false) : s.sees name = false :=
  Bool.eq_false_iff.2 fun hs => Bool.eq_false_iff.1 ht (((h s).done hy).sees hs)

/-- One step after the other.  Of the results of the first step only those matter that it can have.
-/
theorem bind_of (h : Follows E D x y) (hgrows : Respects (growing D) x')
    (hf : ∀ a, (∃ s t, runFrom s y = (.ok a, t)) → Follows E D x' (f a)) :
    Follows E D (x >>= fun _ => x') (y >>= f) := by
  refine ⟨h.grows.bind fun _ => hgrows, ?_, ?_, ?_⟩
  · intro s
    exact (h.leads s).bind fun a t ht _ => (hf a ⟨s, t, ht⟩).leads t
  · intro N K s u b hmeets hx hparameters hy
    obtain ⟨⟨⟩, M, hM, hK⟩ := runFrom_bind_eq_ok hx
    obtain ⟨a, t, ht, hu⟩ := runFrom_bind_eq_ok hy
    obtain ⟨hMN, hKM⟩ := ((h.grows N).done hM).parameters_eq ((hgrows M).done hK) hparameters
    exact (hf a ⟨s, t, ht⟩).keeps (h.keeps hmeets hM hMN ht) hK hKM hu
  · intro N K s u p name hmeets hx hparameters hy hname
    obtain ⟨⟨⟩, M, hM, hK⟩ := runFrom_bind_eq_ok hx
    obtain ⟨hMN, hKM⟩ := ((h.grows N).done hM).parameters_eq ((hgrows M).done hK) hparameters
    rcases runFrom_bind_eq_error hy with hy | ⟨a, t, ht, hu⟩
    · exact h.misses hmeets hM hMN hy hname
    · obtain ⟨hE, hD, hsees⟩ := (hf a ⟨s, t, ht⟩).misses (h.keeps hmeets hM hMN ht) hK hKM hu hname
      exact ⟨hE, hD, not_sees h.leads ht hsees⟩

theorem bind [Inhabited α] (h : Follows E D x y) (hf : ∀ a, Follows E D x' (f a)) :
    Follows E D (x >>= fun _ => x') (y >>= f) :=
  h.bind_of (hf default).grows fun a _ => hf a

/-- A part that is left out, whose declarations are excused. -/
theorem skip (hgrows : Respects (growing C) x) (hCD : C ⊆ D) (hCE : C ⊆ E) (a : α) :
    Follows E D x (pure a : Evaluation α) := by
  refine ⟨Growing.mono hgrows hCD, Respects.pure a, ?_, ?_⟩
  · intro N M s t b hmeets hx hparameters hy
    obtain rfl : s = t := (Prod.mk.inj hy).2
    exact hmeets.grows ((hgrows N).done hx) hparameters
      (fun name hname => .inr (hCE hname)) (.refl s)
  · intro N M s t p name _ _ _ hy
    exact nomatch (Prod.mk.inj hy).1

theorem pure (a : α) : Follows E D (pure ()) (pure a : Evaluation α) :=
  skip (Respects.pure ()) (List.nil_subset D) (List.nil_subset E) a

/-- What cannot be gone through is followed by anything. -/
theorem fail (fault : Fault) (span : Span) (hy : Respects leading y) :
    Follows E D (Naming.fail fault span) y := by
  refine ⟨.throw fun N => .refl N, hy, ?_, ?_⟩
  · intro N M s t a _ hx
    exact nomatch (Prod.mk.inj hx).1
  · intro N M s t p name _ hx
    exact nomatch (Prod.mk.inj hx).1

/-- An evaluation that fails, but for no missing name. -/
theorem stop (hgrows : Respects (growing D) x) {fault : Fault}
    (h : ∀ name, fault ≠ .undeclared name) (span : Span) :
    Follows E D x (Evaluation.fail fault span : Evaluation α) := by
  refine ⟨hgrows, .throw fun s => .refl s, ?_, ?_⟩
  · intro N M s t a _ _ _ hy
    exact nomatch (Prod.mk.inj hy).1
  · intro N M s t p name _ _ _ hy hname
    obtain rfl := Except.error.inj (Prod.mk.inj hy).1
    exact absurd hname (h name)

/-- A step that misses no name, for which nothing is gone through. -/
theorem calm (hy : Respects calm y) : Follows E D (Pure.pure ()) y := by
  refine ⟨Respects.pure (), hy.weaken (fun _ _ h => h) fun _ _ _ h => h.1, ?_, ?_⟩
  · intro N M s t a hmeets hx _ ht
    obtain rfl : N = M := (Prod.mk.inj hx).2
    exact hmeets.leads ((hy s).done ht)
  · intro N M s t p name hmeets _ _ ht hname
    exact absurd hname (((hy s).stop ht).2 hmeets.valid name)

/-- Such a step in front. -/
theorem before (hy : Respects PromptMarkup.calm y) [Inhabited α] (hf : ∀ a, Follows E D x (f a)) :
    Follows E D x (y >>= f) := by
  have h : Follows E D (Pure.pure () >>= fun _ => x) (y >>= f) := (calm hy).bind hf
  rwa [pure_bind] at h

/-- Such a step behind. -/
theorem after (h : Follows E D x y) [Inhabited α] (hf : ∀ a, Respects PromptMarkup.calm (f a)) :
    Follows E D x (y >>= f) := by
  have h' : Follows E D (x >>= fun _ => Pure.pure ()) (y >>= f) := h.bind fun a => calm (hf a)
  rwa [bind_pure_unit] at h'

/-- The same is gone through once and evaluated twice. -/
theorem again (h : Follows E D x y) (hf : ∀ a, Follows E D x (f a)) : Follows E D x (y >>= f) := by
  refine ⟨h.grows, h.leads.bind fun a => (hf a).leads, ?_, ?_⟩
  · intro N M s u b hmeets hx hparameters hy
    obtain ⟨a, t, ht, hu⟩ := runFrom_bind_eq_ok hy
    exact (hf a).keeps (hmeets.leads ((h.leads s).done ht)) hx hparameters hu
  · intro N M s u p name hmeets hx hparameters hy hname
    rcases runFrom_bind_eq_error hy with hy | ⟨a, t, ht, hu⟩
    · exact h.misses hmeets hx hparameters hy hname
    · obtain ⟨hE, hD, hsees⟩ :=
        (hf a).misses (hmeets.leads ((h.leads s).done ht)) hx hparameters hu hname
      exact ⟨hE, hD, not_sees h.leads ht hsees⟩

/-- What is evaluated first is gone through last.  It may miss names that the other part declares.
-/
theorem swap [Inhabited α] (hgrows : Respects (growing C) x) (hE : ∀ name ∈ C, name ∈ D' → name ∈ E)
    (hD : D' ⊆ D) (h : ∀ E', E ⊆ E' → Follows E' D' x' y) (hf : ∀ a, Follows E D x (f a)) :
    Follows E D (x >>= fun _ => x') (y >>= f) := by
  have hleads : Respects leading y := (h E (List.Subset.refl E)).leads
  have hgrows' : Respects (growing D) x' := Growing.mono (h E (List.Subset.refl E)).grows hD
  -- while the part in front is evaluated, everything is excused that is declared once the other one
  -- is gone through
  have hexcused : ∀ {N M : Names} {s : Scope}, Meets E N s → runFrom N x = (.ok (), M) →
      M.parameters = N.parameters → Meets (E ++ M.declared.toList) M s := by
    intro N M s hmeets hx hparameters
    refine ⟨hmeets.valid, fun name hname => .inr (List.mem_append_right E hname),
      fun name hname => ?_⟩
    rw [hparameters] at hname
    exact ((hgrows N).done hx).declared name (hmeets.parameters name hname)
  refine ⟨?_, hleads.bind fun a => (hf a).leads, ?_, ?_⟩
  · exact (hf default).grows.bind fun _ => hgrows'
  · intro N K s u b hmeets hx hparameters hy
    obtain ⟨⟨⟩, M, hM, hK⟩ := runFrom_bind_eq_ok hx
    obtain ⟨a, t, ht, hu⟩ := runFrom_bind_eq_ok hy
    obtain ⟨hMN, hKM⟩ := ((hgrows N).done hM).parameters_eq ((hgrows' M).done hK) hparameters
    have hK' := (h _ (List.subset_append_left E _)).keeps (hexcused hmeets hM hMN) hK hKM ht
    have hM' := (hf a).keeps (hmeets.leads ((hleads s).done ht)) hM hMN hu
    refine ⟨hM'.valid, fun name hname => ?_, hK'.parameters⟩
    rcases hK'.visible name hname with hsees | hname
    · exact .inl ((((hf a).leads t).done hu).sees hsees)
    · rcases List.mem_append.1 hname with hname | hname
      · exact .inr hname
      · exact hM'.visible name hname
  · intro N K s u p name hmeets hx hparameters hy hname
    obtain ⟨⟨⟩, M, hM, hK⟩ := runFrom_bind_eq_ok hx
    obtain ⟨hMN, hKM⟩ := ((hgrows N).done hM).parameters_eq ((hgrows' M).done hK) hparameters
    rcases runFrom_bind_eq_error hy with hy | ⟨a, t, ht, hu⟩
    · obtain ⟨hmem, hD', hsees⟩ :=
        (h _ (List.subset_append_left E _)).misses (hexcused hmeets hM hMN) hK hKM hy hname
      refine ⟨?_, hD hD', hsees⟩
      have hN : name ∈ N.declared → name ∈ E := fun hN =>
        (hmeets.visible name hN).resolve_left (Bool.eq_false_iff.1 hsees)
      rcases List.mem_append.1 hmem with hmem | hmem
      · exact hmem
      · rcases ((hgrows N).done hM).new name hmem with hmem | hC | hp
        · exact hN hmem
        · exact hE name hC hD'
        · exact hN (hmeets.parameters name (hMN ▸ hp))
    · obtain ⟨hE, hD, hsees⟩ :=
        (hf a).misses (hmeets.leads ((hleads s).done ht)) hM hMN hu hname
      exact ⟨hE, hD, not_sees hleads ht hsees⟩

/-- A part that is left out, in front. -/
theorem skip_bind (hgrows : Respects (growing C) x) (hCD : C ⊆ D) (hCE : C ⊆ E)
    (h : Follows E D x' y) :
    Follows E D (x >>= fun _ => x') y := by
  have h' : Follows E D (x >>= fun _ => x') ((Pure.pure () : Evaluation Unit) >>= fun _ => y) :=
    (skip hgrows hCD hCE ()).bind fun _ => h
  rwa [pure_bind] at h'

/-- What is evaluated where a name is read: it fails if the name is not visible. -/
theorem read {name : String} (hD : name ∈ D) (hleads : Respects leading y)
    (herror : ∀ s p t other, s.Valid → runFrom s y = (.error p, t) → p.fault = .undeclared other →
      other = name ∧ s.sees name = false) :
    Follows E D (modify fun N => N.read name) y := by
  refine ⟨.modify fun N => .read N name, hleads, ?_, ?_⟩
  · intro N M s t a hmeets hx hparameters hy
    obtain rfl : N.read name = M := (Prod.mk.inj hx).2
    have hgrows : N.Grows [] (N.read name) := .read N name
    exact hmeets.grows hgrows hparameters (fun _ h => nomatch h) ((hleads s).done hy)
  · intro N M s t p other hmeets hx hparameters hy hother
    obtain rfl : N.read name = M := (Prod.mk.inj hx).2
    obtain ⟨rfl, hsees⟩ := herror s p t other hmeets.valid hy hother
    refine ⟨?_, hD, hsees⟩
    by_cases hN : other ∈ N.declared
    · exact (hmeets.visible other hN).resolve_left (Bool.eq_false_iff.1 hsees)
    · -- a name that is not declared would be a new parameter
      rw [Names.read, if_neg hN] at hparameters
      have hp : other ∈ N.parameters := hparameters ▸ NameSet.mem_insert.2 (.inl rfl)
      exact absurd (hmeets.parameters other hp) hN

theorem declare {name : String} (hD : name ∈ D) (v : Value) :
    Follows E D (modify fun N => N.declare name) (Evaluation.writeVariable name v) := by
  refine ⟨.modify fun N => .declare N hD, .modify fun s => s.leads_set name v, ?_, ?_⟩
  · intro N M s t a hmeets hx hparameters hy
    obtain rfl : N.declare name = M := (Prod.mk.inj hx).2
    obtain rfl : s.set name v = t := (Prod.mk.inj hy).2
    have hgrows : N.Grows [name] (N.declare name) := .declare N List.mem_cons_self
    refine hmeets.grows hgrows hparameters (fun other hother => .inl ?_) (s.leads_set name v)
    rw [Scope.sees_set, List.mem_singleton.1 hother, beq_self_eq_true, Bool.or_true]
  · intro N M s t p other _ _ _ hy
    exact nomatch (Prod.mk.inj hy).1

end Follows

/-! ### Expressions -/

namespace Expr

open Evaluation

variable {E D C : List String} {host : Host}

theorem follows_identifier (s : Span) {name : String} (hD : name ∈ D) :
    Follows E D (modify fun N => N.read name) (links host (identifier s name)) := by
  refine .read hD (leads_links host _).1 fun t p u other hvalid hrun hother => ?_
  have hmissing : Respects (evaluating False True [name]) (links host (identifier s name)) :=
    Respects.bind (respects_readVariable List.mem_cons_self s) fun _ => Respects.pure _
  obtain ⟨hmem, hsees⟩ := ((hmissing t).stop hrun).2.2 trivial hvalid other hother
  obtain rfl := List.mem_singleton.1 hmem
  exact ⟨rfl, hsees⟩

theorem follows_targetName (s : Span) {name : String} (hD : name ∈ D) :
    Follows E D (modify fun N => N.read name) (targetPath host (identifier s name)) := by
  refine .read hD (leads_links host _).2 fun t p u other hvalid hrun hother => ?_
  have hmissing : GoodTarget False True [name] host (identifier s name) :=
    .identifier s List.mem_cons_self
  obtain ⟨hmem, hsees⟩ := ((hmissing.respects t).stop hrun).2.2 trivial hvalid other hother
  obtain rfl := List.mem_singleton.1 hmem
  exact ⟨rfl, hsees⟩

theorem follows_items {es : List Element}
    (ih : ∀ x ∈ es.map Element.expr, Follows E D (mention x) (links host x)) :
    Follows E D (mentionElements es) (items host es) := by
  induction es with
  | nil => exact .pure []
  | cons e rest ihr =>
    have h1 : Follows E D (mention e.expr) (links host e.expr) := ih _ List.mem_cons_self
    have h2 : Follows E D (mentionElements rest) (items host rest) := ihr fun x hx =>
      ih x (List.mem_cons_of_mem _ hx)
    cases e with
    | item x => exact h1.bind fun v => h2.after fun vs => Respects.pure _
    | spread x =>
      exact h1.bind fun v => .before (calm_ofResult (Value.sound_spreadItems _) _) fun ws =>
        h2.after fun vs => Respects.pure _

theorem follows_memberKey {k : Key} (ih : ∀ x ∈ k.exprs, Follows E D (mention x) (links host x)) :
    Follows E D (mentionKey k) (memberKey host k) := by
  cases k with
  | fixed name => exact .pure name
  | computed e =>
    exact (ih e List.mem_cons_self).after fun v => calm_ofResult (Value.sound_asKey _) _

theorem follows_propertyKey {p : Property}
    (ih : ∀ x ∈ p.exprs, Follows E D (mention x) (links host x)) :
    Follows E D (mentionProperty p) (propertyKey host p) := by
  cases p with
  | named name => exact .pure name
  | computed e => exact (ih e List.mem_cons_self).after fun v => Respects.pure _

theorem follows_fields {ms : List Member}
    (ih : ∀ x ∈ ms.flatMap Member.exprs, Follows E D (mention x) (links host x))
    (before : Fields Value) :
    Follows E D (mentionMembers ms) (fields host before ms) := by
  induction ms generalizing before with
  | nil => exact .pure before
  | cons m rest ihr =>
    have hrest : ∀ before, Follows E D (mentionMembers rest) (fields host before rest) :=
      ihr fun x hx => ih x (List.mem_append_right _ hx)
    have hm : ∀ x ∈ m.exprs, Follows E D (mention x) (links host x) := fun x hx =>
      ih x (List.mem_append_left _ hx)
    -- what a member names is named in the order in which it is evaluated
    cases m with
    | property key value =>
      have hkey : Follows E D (mentionKey key) (memberKey host key) :=
        follows_memberKey fun x hx => hm x (List.mem_append_left _ hx)
      have hvalue : Follows E D (mention value) (links host value) :=
        hm value (List.mem_append_right _ List.mem_cons_self)
      exact hkey.bind fun k => hvalue.bind fun v => hrest _
    | spread e =>
      exact (hm e List.mem_cons_self).bind fun v =>
        .before (calm_ofResult (Value.sound_spreadFields _) _) fun more =>
        hrest _

theorem follows_inOrder {es : List Expr} (ih : ∀ x ∈ es, Follows E D (mention x) (links host x))
    (last : Value) :
    Follows E D (mentionAll es) (inOrder host last es) := by
  induction es generalizing last with
  | nil => exact .pure last
  | cons e rest ihr =>
    exact (ih e List.mem_cons_self).bind fun v =>
      ihr (fun x hx => ih x (List.mem_cons_of_mem _ hx)) _

/-- A link of a chain.  What stands behind it is left out if the chain is cut short in front of it.
-/
theorem follows_link {x x' : Naming Unit} {owner : Expr} {optional : Bool}
    {rest : Value → Evaluation (Option Value)} (howner : Follows E D x (links host owner))
    (hgrows : Respects (growing C) x') (hCD : C ⊆ D)
    (hCE : (optional || owner.mayCut) = true → C ⊆ E) (hrest : ∀ v, Follows E D x' (rest v)) :
    Follows E D (x >>= fun _ => x') (links host owner >>= fun o =>
      match o with
      | none => pure none
      | some v => if optional && v.isNullish then pure none else rest v) := by
  refine howner.bind_of (hrest default).grows fun o ho => ?_
  cases o with
  | none =>
    -- the owner itself was cut short, so nothing of the link is evaluated
    obtain ⟨s, t, hcut⟩ := ho
    have howner' : owner.mayCut = true := Bool.of_not_eq_false fun h => uncut_links h s t hcut
    exact .skip hgrows hCD (hCE (by rw [howner', Bool.or_true])) none
  | some v =>
    dsimp only
    -- an optional link on a nullish owner skips the rest
    split
    · next hcut =>
      have hoptional : optional = true := (Bool.and_eq_true_iff.1 hcut).1
      exact .skip hgrows hCD (hCE (by rw [hoptional, Bool.true_or])) none
    · exact hrest v

/-- Going through expressions adds what is declared in one of them. -/
theorem mem_flatMap_declares {es : List Expr} {C : List String} (h : ∀ x ∈ es, x.declares ⊆ C) :
    es.flatMap declares ⊆ C := by
  intro name hname
  obtain ⟨x, hx, hname⟩ := List.mem_flatMap.1 hname
  exact h x hx hname

theorem growing_mentionProperty (p : Property) :
    Respects (growing (p.exprs.flatMap declares)) (mentionProperty p) := by
  have hjoins : Joins (Respects (growing (p.exprs.flatMap declares))) :=
    ⟨.pure _, fun hx hy => hx.bind fun _ => hy⟩
  exact hjoins.property fun e he =>
    (growing_mention fun _ hname => List.mem_flatMap.2 ⟨e, he, hname⟩).1

theorem growing_mentionElements (es : List Element) :
    Respects (growing ((es.map Element.expr).flatMap declares)) (mentionElements es) := by
  have hjoins : Joins (Respects (growing ((es.map Element.expr).flatMap declares))) :=
    ⟨.pure _, fun hx hy => hx.bind fun _ => hy⟩
  exact hjoins.elements fun e he =>
    (growing_mention fun _ hname => List.mem_flatMap.2 ⟨e, he, hname⟩).1

theorem follows_member {x : Naming Unit} {s : Span} {owner : Expr} {property : Property}
    {optional : Bool} (howner : Follows E D x (links host owner))
    (hproperty : ∀ e ∈ property.exprs, Follows E D (mention e) (links host e))
    (hdeclares : ∀ e ∈ property.exprs, e.declares ⊆ D)
    (hloose : ∀ e ∈ (member s owner property optional).loose, e.declares ⊆ E) :
    Follows E D (x >>= fun _ => mentionProperty property)
    (links host (member s owner property optional)) := by
  refine follows_link howner (growing_mentionProperty property) (mem_flatMap_declares hdeclares)
    (fun hcut => ?_)
    fun v => (follows_propertyKey hproperty).after fun key =>
      Respects.bind (calm_of_evaluating (respects_readProperty v key s)) fun _ => Respects.pure _
  exact mem_flatMap_declares fun e he => hloose e (by rw [loose, if_pos hcut]; exact he)

theorem follows_call {s : Span} {callee : Expr} {arguments : List Element} {optional : Bool}
    (hcallee : Follows E D (mention callee) (links host callee))
    (harguments : ∀ e ∈ arguments.map Element.expr, Follows E D (mention e) (links host e))
    (hdeclares : ∀ e ∈ arguments.map Element.expr, e.declares ⊆ D)
    (hloose : ∀ e ∈ (call s callee arguments optional).loose, e.declares ⊆ E) :
    Follows E D (mention (call s callee arguments optional))
    (links host (call s callee arguments optional)) := by
  refine follows_link hcallee (growing_mentionElements arguments) (mem_flatMap_declares hdeclares)
    (fun hcut => ?_)
    fun f => (follows_items harguments).after fun args =>
      Respects.bind (calm_of_evaluating (respects_callFunction host callee s f args)) fun _ =>
        Respects.pure _
  exact mem_flatMap_declares fun e he => hloose e (by rw [loose, if_pos hcut]; exact he)

/-- The part of a conditional that was not chosen is left out. -/
theorem follows_conditional {s : Span} {test consequent alternate : Expr}
    (hparts : ∀ x ∈ (conditional s test consequent alternate).parts,
      Follows E D (mention x) (links host x))
    (hdeclares : ∀ x ∈ (conditional s test consequent alternate).parts, x.declares ⊆ D)
    (hloose : ∀ x ∈ (conditional s test consequent alternate).loose, x.declares ⊆ E) :
    Follows E D (mention (conditional s test consequent alternate))
      (links host (conditional s test consequent alternate)) := by
  have hskip : ∀ x, Respects (growing x.declares) (mention x) := fun x =>
    (growing_mention (List.Subset.refl _)).1
  refine (hparts test (by simp [parts])).bind fun v => ?_
  split
  · exact (hparts consequent (by simp [parts])).bind fun _ =>
      .skip (hskip alternate) (hdeclares alternate (by simp [parts]))
        (hloose alternate (by simp [loose])) _
  · exact .skip_bind (hskip consequent) (hdeclares consequent (by simp [parts]))
      (hloose consequent (by simp [loose]))
      ((hparts alternate (by simp [parts])).after fun _ => Respects.pure _)

theorem follows_assignment {s : Span} {op : AssignOp} {target value : Expr}
    (hlate : (assignment s op target value).late ⊆ E)
    (hskips : (assignment s op target value).skips ⊆ E)
    (htarget : ∀ E', E ⊆ E' → Follows E' target.names (mentionTarget target)
      (targetPath host target))
    (hvalue : Follows E value.names (mention value) (links host value)) :
    Follows E (assignment s op target value).names (mention (assignment s op target value))
      (links host (assignment s op target value)) := by
  have hvalues : value.names ⊆ (assignment s op target value).names :=
    names_subset_of_part (by simp [parts])
  have htargets : target.names ⊆ (assignment s op target value).names :=
    names_subset_of_part (by simp [parts])
  have hvalue' := hvalue.mono hvalues
  have hgrows : Respects (growing value.declares) (mention value) :=
    (growing_mention (List.Subset.refl _)).1
  have hwrite : ∀ name keys v, Respects calm (do
      writePath name keys v target.span
      return some v : Evaluation (Option Value)) := fun name keys v =>
    Respects.bind (calm_writePath name keys v _) fun _ => Respects.pure _
  by_cases hplain : (assignment s op target value).isDeclaration = true
  · unfold isDeclaration at hplain
    split at hplain
    · next heq =>
      obtain ⟨rfl, rfl, rfl, rfl⟩ := Expr.assignment.inj heq
      exact hvalue'.bind fun v => Follows.after (.declare (htargets name_mem_names) _) fun _ =>
        Respects.pure _
    · cases hplain
  · have hplain' := Bool.eq_false_iff.2 hplain
    -- the target is evaluated first, and what is evaluated then follows the value
    have hswap : ∀ {f : String × List String → Evaluation (Option Value)},
        (∀ name keys, Follows E (assignment s op target value).names (mention value)
          (f (name, keys))) →
        Follows E (assignment s op target value).names
          (mention value >>= fun _ => mentionTarget target)
          (targetPath host target >>= f) := fun hf =>
      .swap hgrows (fun name hC hD => hlate (mem_late hplain' hD hC)) htargets htarget fun place =>
        hf place.1 place.2
    have hnot : ¬(op = .assign ∧ ∃ t name, target = identifier t name) := by
      rintro ⟨rfl, t, name, rfl⟩
      cases hplain'
    rw [mention_assignment hnot]
    cases op with
    | assign =>
      cases target with
      | identifier t name => cases hplain'
      | _ => exact hswap fun name keys => hvalue'.after fun v => hwrite name keys _
    | binary op hop =>
      exact hswap fun name keys => .before (Respects.look _) fun v =>
        .before (calm_of_evaluating (respects_readPath _ keys v)) fun old =>
          hvalue'.after fun right =>
          Respects.bind (calm_ofResult (BinaryOp.sound_apply hop _ _) _) fun v => hwrite name keys v
    | logical op =>
      refine hswap fun name keys => .before (Respects.look _) fun v =>
        .before (calm_of_evaluating (respects_readPath _ keys v)) fun old => ?_
      dsimp only
      split
      · have hloose : value.declares ⊆ E := fun name hname =>
          hskips (declares_subset_skips List.mem_cons_self hname)
        exact .skip hgrows (fun name hname => hvalues (declares_subset_names value hname)) hloose _
      · exact hvalue'.after fun v => hwrite name keys _

/-- An expression is evaluated in the order in which it is gone through, and so is the target of an
assignment, both as a value and as a place. -/
theorem follows_mention (host : Host) (e : Expr) (E : List String) (hskips : e.skips ⊆ E)
    (hlate : e.late ⊆ E) :
    Follows E e.names (mention e) (links host e) ∧
      Follows E e.names (mentionTarget e) (targetPath host e) ∧
      Follows E e.names (mentionTarget e) (links host e) := by
  -- a value, a target, and a target read for its value, all three in one induction
  induction e using Expr.induct generalizing E with
  | step e ih =>
    -- the names a part skips or meets late are among those of the whole
    have both : ∀ x ∈ e.parts, ∀ E', E ⊆ E' → Follows E' x.names (mention x) (links host x) ∧
        Follows E' x.names (mentionTarget x) (targetPath host x) ∧
        Follows E' x.names (mentionTarget x) (links host x) := fun x hx E' hE =>
      ih x hx E' (fun _ h => hE (hskips (skips_subset_of_part hx h))) fun _ h =>
        hE (hlate (late_subset_of_part hx h))
    have hv : ∀ x ∈ e.parts, Follows E e.names (mention x) (links host x) := fun x hx =>
      (both x hx E (List.Subset.refl E)).1.mono (names_subset_of_part hx)
    have ht : ∀ x ∈ e.parts, Follows E e.names (mentionTarget x) (targetPath host x) ∧
        Follows E e.names (mentionTarget x) (links host x) := fun x hx =>
      (both x hx E (List.Subset.refl E)).2.imp (Follows.mono · (names_subset_of_part hx))
        (Follows.mono · (names_subset_of_part hx))
    have hloose : ∀ x ∈ e.loose, x.declares ⊆ E := fun x hx _ h =>
      hskips (declares_subset_skips hx h)
    have hdeclares : ∀ x ∈ e.parts, x.declares ⊆ e.names := fun x hx _ h =>
      names_subset_of_part hx (declares_subset_names x h)
    refine ⟨?_, ?_, ?_⟩
    · cases e with
      | literal s l => exact .pure _
      | identifier s name => exact follows_identifier s name_mem_names
      | array s elements => exact (follows_items hv).after fun _ => Respects.pure _
      | object s members => exact (follows_fields hv _).after fun _ => Respects.pure _
      | sequence s es => exact (follows_inOrder hv _).after fun _ => Respects.pure _
      | binary s op left right =>
        by_cases hop : op.isSupported = true
        · simp only [mention, links, hop, Bool.not_true, Bool.false_eq_true, if_false]
          exact (hv left (by simp [parts])).bind fun a =>
            (hv right (by simp [parts])).after fun b =>
            Respects.bind (calm_ofResult (BinaryOp.sound_apply hop _ _) _) fun _ => Respects.pure _
        -- an operator without a meaning fails before it names anything
        · have hleads := (leads_links host (binary s op left right)).1
          rw [mention, if_pos (by rw [Bool.not_eq_true] at hop; rw [hop]; rfl)]
          exact .fail _ _ hleads
      | logical s op left right =>
        refine (hv left (by simp [parts])).bind fun a => ?_
        dsimp only
        -- the right side is skipped, and what it would declare is among the names skipped
        split
        · exact .skip (growing_mention (List.Subset.refl _)).1 (hdeclares right (by simp [parts]))
            (hloose right List.mem_cons_self) _
        · exact (hv right (by simp [parts])).after fun _ => Respects.pure _
      | unary s op argument =>
        by_cases hop : op.isSupported = true
        · simp only [mention, links, hop, Bool.not_true, Bool.false_eq_true, if_false]
          exact (hv argument (by simp [parts])).after fun v =>
            Respects.bind (calm_ofResult (UnaryOp.sound_apply hop _) _) fun _ => Respects.pure _
        · have hleads := (leads_links host (unary s op argument)).1
          rw [mention, if_pos (by rw [Bool.not_eq_true] at hop; rw [hop]; rfl)]
          exact .fail _ _ hleads
      | update s op leading argument =>
        -- the target is mentioned once, but evaluated for its value and again for its path
        obtain ⟨hplace, hvalue⟩ := ht argument (by simp [parts])
        refine hvalue.again fun v => ?_
        split
        · exact hplace.after fun place =>
            Respects.bind (calm_writePath place.1 place.2 _ _) fun _ => Respects.pure _
        -- the value is not a number and the update stops before the write
        · exact .stop hplace.grows (fun _ => by simp) s
      | assignment s op target value =>
        exact follows_assignment hlate hskips
          (fun E' hE => (both target (by simp [parts]) E' hE).2.1)
          (both value (by simp [parts]) E (List.Subset.refl E)).1
      | conditional s test consequent alternate => exact follows_conditional hv hdeclares hloose
      | member s owner property optional =>
        exact follows_member (hv owner List.mem_cons_self)
          (fun x hx => hv x (List.mem_cons_of_mem _ hx))
          (fun x hx => hdeclares x (List.mem_cons_of_mem _ hx)) hloose
      | call s callee arguments optional =>
        exact follows_call (hv callee List.mem_cons_self)
          (fun x hx => hv x (List.mem_cons_of_mem _ hx))
          (fun x hx => hdeclares x (List.mem_cons_of_mem _ hx)) hloose
      | chain s inner => exact (hv inner (by simp [parts])).after fun _ => Respects.pure _
    -- as a target: a name, or a member link that is not optional
    · cases e with
      | identifier s name => exact follows_targetName s name_mem_names
      | member s owner property optional =>
        cases optional with
        | true => exact .fail _ _ (leads_links host _).2
        | false =>
          exact (ht owner List.mem_cons_self).1.bind fun place =>
            (follows_propertyKey fun x hx => hv x (List.mem_cons_of_mem _ hx)).after fun key =>
              Respects.pure _
      | _ => exact .fail _ _ (leads_links host _).2
    -- as a target read for its value
    · cases e with
      | identifier s name => exact follows_identifier s name_mem_names
      | member s owner property optional =>
        cases optional with
        | true => exact .fail _ _ (leads_links host _).1
        | false =>
          exact follows_member (ht owner List.mem_cons_self).2
            (fun x hx => hv x (List.mem_cons_of_mem _ hx))
            (fun x hx => hdeclares x (List.mem_cons_of_mem _ hx)) hloose
      | _ => exact .fail _ _ (leads_links host _).1

/-! ### One expression -/

/-- The law of going through what has only the given names. -/
def naming (C : List String) : Law Problem Names where
  done N M := ∀ name ∈ M.declared, name ∈ N.declared ∨ name ∈ C
  stop N _ M := ∀ name ∈ M.declared, name ∈ N.declared ∨ name ∈ C
  refl _ := fun _ h => .inl h
  trans h h' := fun name hname => (h' name hname).elim (h name) .inr
  back h h' := fun name hname => (h' name hname).elim (h name) .inr

/-- Whatever comes of going through an expression, only its names are added. -/
theorem naming_mention (e : Expr) : Respects (naming e.names) (mention e) := by
  have hjoins : Joins (Respects (naming e.names)) := ⟨.pure _, fun hx hy => hx.bind fun _ => hy⟩
  have hinsert : ∀ {N : Names} {name other : String}, name ∈ e.names →
    other ∈ N.declared.insert name →
      other ∈ N.declared ∨ other ∈ e.names := fun hname h =>
    (NameSet.mem_insert.1 h).elim (fun heq => .inr (heq ▸ hname)) .inl
  refine (hjoins.mention
    (fun s name hx => .modify fun N other hother => ?_) (fun s t name value hx => ?_)
    fun _ _ _ => .throw fun N name h => .inl h).1
  · have hname : name ∈ e.names := List.mem_filterMap.2 ⟨_, hx, rfl⟩
    unfold Names.read at hother
    split at hother
    · exact .inl hother
    · exact hinsert hname hother
  · have hname : name ∈ e.names := declares_subset_names e (List.mem_filterMap.2 ⟨_, hx, rfl⟩)
    exact .modify fun N other hother => hinsert hname hother

theorem evaluate_eq (host : Host) (e : Expr) :
    e.evaluate host = e.links host >>= fun v => pure (orUndefined v) := by
  simp [evaluate]

/-- An expression is gone through with just the names declared that are visible where it is
evaluated.  If that succeeds and adds no parameter, then a name that the evaluation misses is
declared in a part that may be left out, or by the value of an assignment whose target has it.  If
the evaluation succeeds, every name that is declared then is visible, or is a name of the expression
that was not visible before and is not settled there: it stands only in parts that may be left out.
-/
theorem scoping_agrees (host : Host) (e : Expr) {names : Names} {s : Scope} (hs : s.Valid)
    (hdeclared : ∀ name, name ∈ names.declared ↔ s.sees name = true)
    (hparameters : ∀ name ∈ names.parameters, name ∈ names.declared) :
    (∀ names', Naming.runOn names e.mention = (.ok (), names') →
      names'.parameters = names.parameters →
      ∀ p t name, runIn s (e.evaluate host) = (.error p, t) → p.fault = .undeclared name →
        name ∈ e.skips ∨ name ∈ e.late) ∧
    ∀ v t, runIn s (e.evaluate host) = (.ok v, t) →
    ∀ name ∈ (Naming.runOn names e.mention).2.declared,
      t.sees name = true ∨ name ∈ e.names ∧ s.sees name = false ∧ ¬Settles name e := by
  have hmeets : Meets (e.skips ++ e.late) names s :=
    ⟨hs, fun name hname => .inl ((hdeclared name).1 hname), hparameters⟩
  constructor
  · intro names' hmention hadded p t name heval hname
    have hfollows : Follows (e.skips ++ e.late) e.names (mention e) (e.evaluate host) := by
      rw [evaluate_eq]
      exact (follows_mention host e _ (List.subset_append_left _ _)
        (List.subset_append_right _ _)).1.after
        fun v => Respects.pure _
    obtain ⟨hexcused, -, -⟩ := hfollows.misses hmeets hmention hadded heval hname
    exact List.mem_append.1 hexcused
  · intro v t heval name hname
    rw [evaluate_eq] at heval
    have hleads : Respects leading (e.links host >>= fun v => pure (orUndefined v)) :=
      (leads_links host e).1.bind fun v => Respects.pure _
    cases hsees : s.sees name with
    | true => exact .inl (((hleads s).done heval).sees hsees)
    | false =>
      by_cases hsettles : Settles name e
      · have hshows : Shows name (e.links host >>= fun v => pure (orUndefined v)) :=
          (shows_of_settles host hsettles).1.front fun v => Respects.pure _
        exact .inl (hshows s v t heval)
      · -- the name is new, so going through the expression has found it there
        have hnaming := naming_mention e names
        have hnew : name ∈ names.declared ∨ name ∈ e.names := by
          rcases hrun : runFrom names (mention e) with ⟨p | ⟨⟩, names'⟩
          · rw [Naming.runOn, hrun] at hname
            exact hnaming.stop hrun name hname
          · rw [Naming.runOn, hrun] at hname
            exact hnaming.done hrun name hname
        rcases hnew with hdecl | hmem
        · exact absurd ((hdeclared name).1 hdecl) (Bool.eq_false_iff.1 hsees)
        · exact .inr ⟨hmem, rfl, hsettles⟩

/-- In `y = a, b && (z = y), [y, a]` the name `y` is not missing, and it is visible behind; `z` may
not be. -/
theorem scoping_agrees_skippedDeclaration :
    let e : Expr := .sequence ⟨0, 27⟩ [
      .assignment ⟨0, 5⟩ .assign (.identifier ⟨0, 1⟩ "y") (.identifier ⟨4, 5⟩ "a"),
      .logical ⟨7, 18⟩ .and (.identifier ⟨7, 8⟩ "b")
        (.assignment ⟨13, 18⟩ .assign (.identifier ⟨13, 14⟩ "z") (.identifier ⟨17, 18⟩ "y")),
      .array ⟨21, 27⟩ [.item (.identifier ⟨22, 23⟩ "y"), .item (.identifier ⟨25, 26⟩ "a")]]
    let s := Scope.ofFields [("a", .string "A"), ("b", .boolean false)]
    let names : Names := ⟨.ofList ["a", "b"], .empty⟩
    s.Valid ∧ (∀ name, name ∈ names.declared ↔ s.sees name = true) ∧
      (∀ name ∈ names.parameters, name ∈ names.declared) ∧
      (∀ p t, runIn s (e.evaluate plainSetting.host) = (.error p, t) → p.fault ≠ .undeclared "y") ∧
      ∀ v t, runIn s (e.evaluate plainSetting.host) = (.ok v, t) → t.sees "y" = true := by
  intro e s names
  have hs : s.Valid := Scope.valid_ofFields _
  have hdeclared : ∀ name, name ∈ names.declared ↔ s.sees name = true := by
    intro name
    have hnames : s.sees name = true ↔ "a" = name ∨ "b" = name := by
      show ((Scope.ofFields [("a", .string "A"), ("b", .boolean false)]).sees name) = true ↔ _
      rw [Scope.ofFields, List.foldl_cons, List.foldl_cons, List.foldl_nil, Scope.sees_set,
        Scope.sees_set, Bool.or_eq_true, Bool.or_eq_true, beq_iff_eq, beq_iff_eq]
      simp [Scope.ofStash, Scope.sees, Fields.has, Fields.get?]
    have hlist : names.declared.toList = ["a", "b"] := by decide +kernel
    rw [hnames, NameSet.mem_iff, hlist, List.mem_pair]
    exact or_congr eq_comm eq_comm
  have hparameters : ∀ name ∈ names.parameters, name ∈ names.declared :=
    fun name hname => absurd hname List.not_mem_nil
  obtain ⟨hmissing, hvisible⟩ := scoping_agrees plainSetting.host e hs hdeclared hparameters
  refine ⟨hs, hdeclared, hparameters, fun p t heval hname => ?_, fun v t heval => ?_⟩
  · have hmention : Naming.runOn names e.mention = (.ok (), (Naming.runOn names e.mention).2) := rfl
    rcases hmissing _ hmention rfl p t "y" heval hname with hskips | hlate
    · exact absurd hskips (by decide +kernel)
    · exact absurd hlate (by decide +kernel)
  · have hy : "y" ∈ (Naming.runOn names e.mention).2.declared := by decide +kernel
    refine (hvisible v t heval "y" hy).resolve_right fun hunsettled => hunsettled.2.2 ?_
    exact .part List.mem_cons_self (.part List.mem_cons_self (.here _))

/-- A text of which the evaluation misses `x` in an empty scope, and which has no parameter. -/
def missesX (text : String) : Bool :=
  (readWhole text.toList).toOption.any fun e =>
    match Naming.runOn ⟨.empty, .empty⟩ e.mention,
      runIn (Scope.ofFields []) (e.evaluate plainSetting.host) with
    | (.ok (), names), (.error p, _) => names.parameters = .empty ∧ p.fault = .undeclared "x"
    | _, _ => false

theorem exists_of_missesX {text : String} (h : missesX text = true) :
    ∃ e names p t, readWhole text.toList = .ok e ∧
      Naming.runOn ⟨.empty, .empty⟩ e.mention = (.ok (), names) ∧
      names.parameters = .empty ∧
      runIn (Scope.ofFields []) (e.evaluate plainSetting.host) = (.error p, t) ∧
      p.fault = .undeclared "x" := by
  obtain ⟨e, hread, h⟩ := exists_ok_of_any h
  split at h
  · next names p t hmention heval =>
    obtain ⟨hparameters, hname⟩ := of_decide_eq_true h
    exact ⟨e, names, p, t, hread, hmention, hparameters, heval, hname⟩
  · exact nomatch h

/-- What is declared in a part that was left out is taken for declared behind it, and so is what the
value of an assignment declares for the target, which is evaluated first. -/
theorem scoping_fails :
    (∃ e names p t, readWhole "false && (x = 'a'), x".toList = .ok e ∧
      Naming.runOn ⟨.empty, .empty⟩ e.mention = (.ok (), names) ∧ names.parameters = .empty ∧
      runIn (Scope.ofFields []) (e.evaluate plainSetting.host) = (.error p, t) ∧
      p.fault = .undeclared "x") ∧
    (∃ e names p t, readWhole "x += (x = 'a')".toList = .ok e ∧
      Naming.runOn ⟨.empty, .empty⟩ e.mention = (.ok (), names) ∧ names.parameters = .empty ∧
      runIn (Scope.ofFields []) (e.evaluate plainSetting.host) = (.error p, t) ∧
      p.fault = .undeclared "x") ∧
    ∃ e v t, readWhole "false && (x = 'a')".toList = .ok e ∧
      runIn (Scope.ofFields []) (e.evaluate plainSetting.host) = (.ok v, t) ∧
      "x" ∈ (Naming.runOn ⟨.empty, .empty⟩ e.mention).2.declared ∧ t.sees "x" = false := by
  refine ⟨exists_of_missesX (by decide +kernel), exists_of_missesX (by decide +kernel), ?_⟩
  have hcheck : ((readWhole "false && (x = 'a')".toList).toOption.any fun e =>
      (runIn (Scope.ofFields []) (e.evaluate plainSetting.host)).1.isOk ∧
        "x" ∈ (Naming.runOn ⟨.empty, .empty⟩ e.mention).2.declared ∧
        (runIn (Scope.ofFields []) (e.evaluate plainSetting.host)).2.sees "x" = false) = true := by
    decide +kernel
  obtain ⟨e, hread, hall⟩ := exists_ok_of_any hcheck
  obtain ⟨hok, hdeclared, hsees⟩ := of_decide_eq_true hall
  rcases heval : runIn (Scope.ofFields []) (e.evaluate plainSetting.host) with ⟨p | v, t⟩
  · rw [heval] at hok
    cases hok
  · rw [heval] at hsees
    exact ⟨e, v, t, hread, heval, hdeclared, hsees⟩

end Expr

end PromptMarkup

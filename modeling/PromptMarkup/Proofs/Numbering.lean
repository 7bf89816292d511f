/-
The numbers of the nodes of a template.

* `Node.ids` — the numbers of a node and of everything inside of it;
* `Node.number_spec` — numbering counts the nodes in the order of the document;
* `Node.mem_nodes_number` — the nodes of a tree that was numbered are numbered nodes of the tree;
* `Template.ids_of_read` — in a template that was read the numbers of the nodes are, one after the
  other, those below the number of nodes;
* `Template.numbered_of_read` — so no two nodes have the same number.
-/
import PromptMarkup.Proofs.Trees
import PromptMarkup.Template.Reader

namespace PromptMarkup

namespace Node

/-- The numbers of a node and of all nodes inside of it. -/
def ids (n : Node) : List Nat :=
  n.nodes.map Node.id

/-- The numbers of several nodes and of all nodes inside of them. -/
def idsAll (ns : List Node) : List Nat :=
  (nodesAll ns).map Node.id

theorem ids_eq (n : Node) : n.ids = n.id :: idsAll n.childNodes := by
  rw [ids, nodes_eq]
  rfl

@[simp] theorem idsAll_nil : idsAll [] = [] :=
  rfl

@[simp] theorem idsAll_cons (n : Node) (ns : List Node) :
    idsAll (n :: ns) = n.ids ++ idsAll ns := by
  simp [idsAll, nodesAll, ids]

@[simp] theorem idsAll_append (l r : List Node) : idsAll (l ++ r) = idsAll l ++ idsAll r := by
  simp [idsAll]

theorem id_mem_ids (n : Node) : n.id ∈ n.ids :=
  List.mem_map_of_mem (mem_nodes_self n)

theorem ids_subset_idsAll {n : Node} {ns : List Node} (h : n ∈ ns) : n.ids ⊆ idsAll ns := by
  intro id hid
  obtain ⟨m, hm, rfl⟩ := List.mem_map.1 hid
  exact List.mem_map_of_mem (mem_nodesAll.2 ⟨n, h, hm⟩)

theorem ids_sublist_idsAll {n : Node} {ns : List Node} (h : n ∈ ns) :
    n.ids.Sublist (idsAll ns) := by
  obtain ⟨before, after, rfl⟩ := List.append_of_mem h
  rw [idsAll_append, idsAll_cons]
  exact (List.sublist_append_left _ _).trans (List.sublist_append_right _ _)

theorem idsAll_childNodes_subset (n : Node) : idsAll n.childNodes ⊆ n.ids := by
  rw [ids_eq]
  exact List.subset_cons_self _ _

theorem idsAll_childNodes_subset_of_mem {n m : Node} (h : m ∈ n.nodes) :
    idsAll m.childNodes ⊆ idsAll n.childNodes := by
  rw [nodes_eq] at h
  rcases List.mem_cons.1 h with rfl | h
  · exact List.Subset.refl _
  · obtain ⟨c, hc, hm⟩ := mem_nodesAll.1 h
    intro id hid
    obtain ⟨x, hx, rfl⟩ := List.mem_map.1 hid
    obtain ⟨d, hd, hx⟩ := mem_nodesAll.1 hx
    have hxm : x ∈ m.nodes := mem_nodes_of_child hd hx
    exact ids_subset_idsAll hc (List.mem_map_of_mem (mem_nodes_trans hm hxm))

/-- A number belongs to one node of a list only. -/
theorem eq_of_mem_ids {ns : List Node} (hnodup : (idsAll ns).Nodup) {n m : Node} (hn : n ∈ ns)
    (hm : m ∈ ns) {id : Nat} (hidn : id ∈ n.ids) (hidm : id ∈ m.ids) : n = m := by
  induction ns with
  | nil => exact nomatch hn
  | cons x rest ih =>
    rw [idsAll_cons] at hnodup
    obtain ⟨-, hrest, hdisjoint⟩ := List.nodup_append.1 hnodup
    have apart : ∀ {y}, y ∈ rest → id ∈ x.ids → id ∈ y.ids → False := fun hy hx hidy =>
      hdisjoint id hx id (ids_subset_idsAll hy hidy) rfl
    rcases List.mem_cons.1 hn with rfl | hnrest
    · rcases List.mem_cons.1 hm with rfl | hmrest
      · rfl
      · exact (apart hmrest hidn hidm).elim
    · rcases List.mem_cons.1 hm with rfl | hmrest
      · exact (apart hnrest hidm hidn).elim
      · exact ih hrest hnrest hmrest

/-! ### Numbering -/

/-- A node was numbered from `next` on. -/
def NumberedFrom (next : Nat) (n : Node) (numbered : Node × Nat) : Prop :=
  numbered.1.ids = List.range' next n.nodes.length ∧ numbered.2 = next + n.nodes.length

theorem numberAll_spec {ns : List Node} (ih : ∀ n ∈ ns, ∀ next, NumberedFrom next n (n.number next))
    (next : Nat) :
    idsAll (numberAll next ns).1 = List.range' next (nodesAll ns).length ∧
      (numberAll next ns).2 = next + (nodesAll ns).length := by
  induction ns generalizing next with
  | nil => simp [numberAll, nodesAll]
  | cons n rest ihr =>
    obtain ⟨h1, h2⟩ := ih n List.mem_cons_self next
    obtain ⟨h3, h4⟩ := ihr (fun m hm => ih m (List.mem_cons_of_mem _ hm)) (n.number next).2
    refine ⟨?_, ?_⟩
    · show idsAll ((n.number next).1 :: _) = _
      rw [idsAll_cons, h1, h3, h2, nodesAll, List.length_append, List.range'_append_1]
    · show (numberAll (n.number next).2 rest).2 = _
      rw [h4, h2, nodesAll, List.length_append]
      omega

theorem numberElse_eq (next : Nat) (o : Option Node) :
    (numberElse next o).1.toList = (numberAll next o.toList).1 ∧
      (numberElse next o).2 = (numberAll next o.toList).2 := by
  cases o with
  | none => exact ⟨rfl, rfl⟩
  | some n => exact ⟨rfl, rfl⟩

theorem numberAll_append (next : Nat) (l r : List Node) :
    numberAll next (l ++ r) =
      ((numberAll next l).1 ++ (numberAll (numberAll next l).2 r).1,
        (numberAll (numberAll next l).2 r).2) := by
  induction l generalizing next with
  | nil => rfl
  | cons n rest ih => simp [numberAll, ih]

/-- Numbering a node gives it the first number and numbers what is directly inside of it. -/
theorem number_eq (n : Node) (next : Nat) :
    (n.number next).1.id = next ∧
      (n.number next).1.childNodes = (numberAll (next + 1) n.childNodes).1 ∧
      (n.number next).2 = (numberAll (next + 1) n.childNodes).2 := by
  cases n with
  | ifBlock i condition elseIf children otherwise =>
    -- the children come first, then the else part, with the next numbers
    obtain ⟨h1, h2⟩ := numberElse_eq (numberAll (next + 1) children).2 otherwise
    refine ⟨rfl, ?_, ?_⟩
    · rw [childNodes, numberAll_append, ← h1]
      rfl
    · rw [childNodes, numberAll_append, ← h2]
      rfl
  | forBlock i header children otherwise =>
    obtain ⟨h1, h2⟩ := numberElse_eq (numberAll (next + 1) children).2 otherwise
    refine ⟨rfl, ?_, ?_⟩
    · rw [childNodes, numberAll_append, ← h1]
      rfl
    · rw [childNodes, numberAll_append, ← h2]
      rfl
  | _ => exact ⟨rfl, rfl, rfl⟩

/-- Numbering counts the nodes in the order of the document. -/
theorem number_spec (n : Node) (next : Nat) : NumberedFrom next n (n.number next) := by
  induction n using Node.induct generalizing next with
  | step n ih =>
    obtain ⟨h1, h2, h3⟩ := number_eq n next
    obtain ⟨h4, h5⟩ := numberAll_spec (fun m hm next => ih m hm next) (next + 1)
    have hlength : n.nodes.length = (nodesAll n.childNodes).length + 1 := by
      rw [nodes_eq, List.length_cons]
    refine ⟨?_, ?_⟩
    · rw [ids_eq, h1, h2, h4, hlength, List.range'_succ]
    · rw [h3, h5, hlength]
      omega

theorem mem_numberAll {next : Nat} {ns : List Node} {m : Node} (h : m ∈ (numberAll next ns).1) :
    ∃ n ∈ ns, ∃ k, m = (n.number k).1 := by
  induction ns generalizing next with
  | nil => exact nomatch h
  | cons n rest ih =>
    rcases List.mem_cons.1 h with rfl | h
    · exact ⟨n, List.mem_cons_self, next, rfl⟩
    · obtain ⟨x, hx, k, rfl⟩ := ih h
      exact ⟨x, List.mem_cons_of_mem _ hx, k, rfl⟩

/-- The nodes of a node that was numbered are its nodes, numbered. -/
theorem mem_nodes_number {n m : Node} {next : Nat} (h : m ∈ (n.number next).1.nodes) :
    ∃ x ∈ n.nodes, ∃ k, m = (x.number k).1 := by
  induction n using Node.induct generalizing next with
  | step n ih =>
    rw [nodes_eq] at h
    rcases List.mem_cons.1 h with rfl | h
    · exact ⟨n, mem_nodes_self n, next, rfl⟩
    · obtain ⟨y, hy, hm⟩ := mem_nodesAll.1 h
      rw [(number_eq n next).2.1] at hy
      obtain ⟨x, hx, k, rfl⟩ := mem_numberAll hy
      obtain ⟨z, hz, j, rfl⟩ := ih x hx hm
      exact ⟨z, mem_nodes_of_child hx hz, j, rfl⟩

end Node

/-- No two nodes of a template have the same number, and all numbers are below the number of nodes.
-/
structure Template.Numbered (t : Template) : Prop where
  nodup : t.root.ids.Nodup
  bounded : ∀ id ∈ t.root.ids, id < t.nodeCount

variable [ConfigReader]

/-- A template that was read is the numbered content of the root, once nothing else is open. -/
theorem Template.read_eq_ok {source : String} {t : Template} (h : Template.read source = .ok t) :
    ∃ r children, Reader.run (source.toList.length + 1) (Reader.ofText source.toList) = .ok r ∧
      r.frames = [.root children] ∧
      t = ⟨((Node.fragment ⟨0, 0, r.cursor.offset⟩ children.reverse).number 0).1,
        ((Node.fragment ⟨0, 0, r.cursor.offset⟩ children.reverse).number 0).2, source⟩ := by
  unfold Template.read at h
  dsimp only at h
  rcases hrun : Reader.run (source.toList.length + 1) (Reader.ofText source.toList) with p | r
  · simp only [hrun, bind, Except.bind] at h
    cases h
  · simp only [hrun, bind, Except.bind] at h
    split at h
    · next children hframes =>
      obtain rfl := Except.ok.inj h
      exact ⟨r, children, rfl, hframes, rfl⟩
    · exact nomatch h
    · exact nomatch h

theorem Template.source_of_read {source : String} {t : Template}
    (h : Template.read source = .ok t) :
    t.source = source := by
  obtain ⟨_, _, -, -, rfl⟩ := read_eq_ok h
  rfl

/-- In a template that was read, the numbers of the nodes are, in the order of the document, those
below the number of nodes. -/
theorem Template.ids_of_read {source : String} {t : Template} (h : Template.read source = .ok t) :
    t.root.ids = List.range t.nodeCount := by
  obtain ⟨r, children, -, -, rfl⟩ := read_eq_ok h
  obtain ⟨hids, hcount⟩ := Node.number_spec (.fragment ⟨0, 0, r.cursor.offset⟩ children.reverse) 0
  rw [hids, List.range_eq_range']
  exact congrArg (List.range' 0) (hcount.trans (Nat.zero_add _)).symm

theorem Template.numbered_of_read {source : String} {t : Template}
    (h : Template.read source = .ok t) : t.Numbered := by
  have hids := ids_of_read h
  refine ⟨hids ▸ List.nodup_range, fun id hid => ?_⟩
  rw [hids] at hid
  exact List.mem_range.1 hid

end PromptMarkup

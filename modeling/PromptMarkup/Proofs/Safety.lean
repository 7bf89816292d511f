/-
Reading a template ends, and nothing that it does can break down.

* `Reader.wellFounded_goesOn` — there is no endless sequence of steps;
* `Reader.Safe`, `Reader.Reaches.safe` — what holds of every reader that a text leads to;
* `Slicer.read_eq` — reading by byte offsets gives the template of the text, and never breaks down;
* `Template.read_safe` — all of this, for every text.

Design notes: a step that does not end with a problem leaves less of the text in front of the
cursor, which bounds the steps.  What a breakdown is was said with the reader by byte offsets; here
its steps are chained together, with the order of the stack as the invariant.
-/
import PromptMarkup.Proofs.Agreement
import PromptMarkup.Proofs.Blame
import PromptMarkup.Yaml.Document

namespace PromptMarkup

open Text (Cursor byteLength IsBoundary)
open Checked (lift)
open PromptMarkup.Frame (Stacked)

namespace Reader

variable [ConfigReader] {s : List Char} {r r' : Reader} {bound : Nat}

/-- A reader that is not at the end of the text takes a step. -/
structure GoesOn (r r' : Reader) : Prop where
  more : r.cursor.atEnd = false
  step : r.step = .ok r'

/-- A step takes some of the text. -/
theorem GoesOn.length_lt (h : r.GoesOn r') : r'.cursor.rest.length < r.cursor.rest.length := by
  obtain ⟨⟨n, hn⟩, -⟩ := (change_step r).ok r' h.step
  have hpos : 0 < r.cursor.rest.length :=
    List.length_pos_iff.2 fun hnil => Bool.eq_false_iff.1 h.more (List.isEmpty_iff.2 hnil)
  rw [hn, Cursor.rest_move, Cursor.rest_step, List.length_drop, List.length_drop]
  omega

/-- There is no endless sequence of steps. -/
theorem wellFounded_goesOn : WellFounded fun r' r : Reader => r.GoesOn r' :=
  Subrelation.wf (fun h => GoesOn.length_lt h) (measure fun r : Reader => r.cursor.rest.length).wf

theorem Reaches.run (h : Reaches s r) (hrun : r.run bound = .ok r') : Reaches s r' :=
  invariant_run (fun _ _ h hmore =>
    h.step (Bool.eq_false_iff.2 fun hend => hmore (List.isEmpty_iff.1 hend))) h hrun

/-- What holds of a reader on its way through a text. -/
structure Safe (s : List Char) (r : Reader) : Prop where
  text : r.cursor.text = s
  boundary : IsBoundary s r.cursor.offset
  stacked : Stacked r.frames
  /-- A step with cuts at byte offsets and with frames taken from the stack does not break down. -/
  checked : r.slicer.step s = lift (r.step.map Reader.slicer)
  /-- A step ends with a problem, or moves on and keeps inside the text. -/
  moves : ∀ r', r.GoesOn r' → r.cursor.offset < r'.cursor.offset ∧ IsBoundary s r'.cursor.offset
  /-- An `endif` takes an `if` and the clauses on top of it from the stack, and nothing else. -/
  closes : ∀ f rest, r.frames = f :: rest → f.isIf = true → ∀ t closeStart stop,
    ∃ clauses opener below n, r.frames = clauses ++ opener :: below ∧
    (∀ g ∈ clauses, g.isElseIf = true) ∧
      opener.isIf = true ∧ opener.isElseIf = false ∧
      closeIf t closeStart stop none r.frames = .ok (appendNode n below)

omit [ConfigReader] in
theorem Steady.boundary (h : r.Steady s) : IsBoundary s r.cursor.offset :=
  Cursor.Meets.isBoundary ⟨r.cursor, h.place, rfl⟩

theorem Reaches.safe (h : Reaches s r) : r.Safe s := by
  have hsteady := h.steady
  refine ⟨?_, hsteady.boundary, hsteady.stacked, (agrees_step hsteady).eq, fun r' hgoes => ?_,
    fun f rest hframes hf t closeStart stop => ?_⟩
  · exact hsteady.place.text_eq
  · refine ⟨?_, (hsteady.step hgoes.step).boundary⟩
    have hne : r.cursor.rest ≠ [] := fun hnil =>
      Bool.eq_false_iff.1 hgoes.more (List.isEmpty_iff.2 hnil)
    exact Nat.lt_of_lt_of_le (Cursor.offset_lt_step hne)
      ((change_step r).ok r' hgoes.step).1.offset_le
  · rw [hframes]
    exact closeIf_of_stacked (hframes ▸ hsteady.stacked) hf t closeStart stop

end Reader

/-! ### Whole texts -/

section Runs

variable [ConfigReader] {s : List Char} {r : Reader} {bound : Nat}

theorem Reader.run_succ (bound : Nat) (hmore : r.cursor.atEnd = false) :
    r.run (bound + 1) = r.step >>= Reader.run bound := by
  rw [Reader.run, if_neg (Bool.eq_false_iff.1 hmore)]
  cases r.step <;> rfl

/-- All steps together do not break down. -/
theorem agrees_run (h : r.Steady s) (hbound : r.cursor.rest.length < bound) :
    Agrees s Reader.cursor Reader.slicer (r.slicer.run s bound) (r.run bound) := by
  induction bound generalizing r with
  | zero => exact absurd hbound (Nat.not_lt_zero _)
  | succ bound ih =>
    unfold Slicer.run
    cases hend : r.cursor.atEnd with
    | true =>
      rw [if_neg fun hlt => (offset_lt_byteLength h.place).1 hlt (List.isEmpty_iff.1 hend),
        Reader.run, if_pos hend]
      exact agrees_ok h.place
    | false =>
      have hrest : r.cursor.rest ≠ [] := fun hnil =>
        Bool.eq_false_iff.1 hend (List.isEmpty_iff.2 hnil)
      rw [if_pos ((offset_lt_byteLength h.place).2 hrest), Reader.run_succ bound hend]
      refine (agrees_step h).bind fun r' hstep _ => ih (h.step hstep) ?_
      have hless := Reader.GoesOn.length_lt ⟨hend, hstep⟩
      omega

omit [ConfigReader] in
/-- At the end of the text the root is the only frame, or something is unclosed. -/
theorem finish_cases (h : r.Steady s) (hend : r.cursor.rest = []) :
    (∃ children, r.frames = [.root children] ∧
      r.slicer.finish s = pure (.fragment ⟨0, 0, r.cursor.offset⟩ children.reverse)) ∨
    ∃ f g rest, r.frames = f :: g :: rest ∧
    r.slicer.finish s = throw (unclosed r.cursor.offset f) := by
  have hoffset := h.place.final_ofText
  rw [Cursor.final, hend, byteLength, Nat.add_zero] at hoffset
  rw [Slicer.finish, ← hoffset]
  dsimp only
  obtain ⟨opened, bottom, hframes, hbottom, -⟩ := h.stacked.root
  rw [hframes]
  -- the stack is its root alone, or something was left open on top of it
  cases opened with
  | nil =>
    obtain ⟨children, rfl⟩ : ∃ children, bottom = .root children := by
      cases bottom with
      | root children => exact ⟨children, rfl⟩
      | _ => cases hbottom
    exact .inl ⟨children, rfl, rfl⟩
  | cons f opened =>
    obtain ⟨g, rest, hrest⟩ := List.exists_cons_of_ne_nil (List.append_ne_nil_of_right_ne_nil opened
      (List.cons_ne_nil bottom []))
    refine .inr ⟨f, g, rest, congrArg (f :: ·) hrest, ?_⟩
    rw [List.cons_append, hrest]
    cases f <;> rfl

theorem Slicer.read_eq (source : String) : Slicer.read source = some (Template.read source) := by
  have hrun := (agrees_run (Reader.steady_ofText source.toList) (Nat.lt_succ_self _)).eq
  have hstart : (Reader.ofText source.toList).slicer = ⟨0, [.root []]⟩ := rfl
  have hlength : (Reader.ofText source.toList).cursor.rest.length = source.toList.length := rfl
  rw [hstart, hlength] at hrun
  unfold Slicer.read Template.read
  dsimp only
  -- the two runs agree, so what is left is how each of them finishes
  rw [hrun]
  cases hresult : Reader.run (source.toList.length + 1) (Reader.ofText source.toList) with
  | error p => rfl
  | ok r =>
    have hsteady := (Reader.Reaches.start.run hresult).steady
    have hend := Reader.atEnd_of_run (Nat.lt_succ_self _) hresult
    change (Slicer.finish source.toList r.slicer >>= _ : Checked Template).run.map _ = _
    rcases finish_cases hsteady hend with ⟨children, hframes, hfinish⟩ |
      ⟨f, g, rest, hframes, hfinish⟩
    · rw [hfinish]
      simp only [bind, Except.bind, hframes]
      rfl
    · rw [hfinish]
      simp only [bind, Except.bind, hframes]
      rfl

end Runs

/-- Reading a text ends, and nothing that it does can break down: there is no endless sequence of
steps, every reader that the text leads to is safe, and so the reader that may break down gives the
template. -/
theorem Template.read_safe [ConfigReader] (source : String) :
    (WellFounded fun r' r : Reader => r.GoesOn r') ∧
    (∀ r, Reader.Reaches source.toList r → r.Safe source.toList) ∧
      Slicer.read source = some (Template.read source) :=
  ⟨Reader.wellFounded_goesOn, fun _ h => h.safe, Slicer.read_eq source⟩

/-- A text that ends in an `else if`, behind a character of two bytes. -/
def openClause : String :=
  "\x7b\x7bif a\x7d\x7dé\x7b\x7belse if b\x7d\x7d"

theorem Template.read_safe_openClause :
    ∃ r, Reader.Reaches openClause.toList r ∧ r.frames.map Frame.isElseIf = [true, false, false] ∧
      r.Safe openClause.toList ∧ Slicer.read openClause = some (Template.read openClause) := by
  have hcheck : ((Reader.run 30 (Reader.ofText openClause.toList)).toOption.any fun r =>
      r.frames.map Frame.isElseIf = [true, false, false]) = true := by
    decide +kernel
  obtain ⟨r, hrun, hframes⟩ := exists_ok_of_any hcheck
  have hreaches := Reader.Reaches.start.run hrun
  exact ⟨r, hreaches, of_decide_eq_true hframes, (read_safe openClause).2.1 r hreaches,
    (read_safe openClause).2.2⟩

end PromptMarkup

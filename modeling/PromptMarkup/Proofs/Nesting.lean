/-
What is open while a template is read.

* `Frame.Stacked` — the root is at the bottom of the stack and nowhere else, and an `else if` stands
  on an `if` whose `else` part is open and still empty;
* `Reader.Change.stacked` — a step keeps the stack so;
* `closeIf_of_stacked` — an `endif` takes an `if` and the `else if` clauses on top of it from the
  stack, nothing else;
* `Reader.Reaches`, `Reader.Steady` — the readers that a text may lead to, and what holds of each.

Design notes: only the innermost frame gets nodes, and an `else if` is opened together with the
`else` part below it; so that part stays empty as long as the clause is open.
-/
import Mathlib.Data.List.Chain
import PromptMarkup.Proofs.Reading

namespace PromptMarkup

open Text (Cursor)

namespace Frame

/-- An open `if`, or an open `else if`. -/
def isIf : Frame → Bool
  | ifBlock _ _ _ _ _ _ => true
  | _ => false

/-- An `if` whose `else` part is open and still empty. -/
def awaits : Frame → Bool
  | ifBlock _ _ _ _ _ (some (_, [])) => true
  | _ => false

/-- The root is at the bottom of the stack and nowhere else, and an `else if` stands on an `if`
whose `else` part is open and still empty. -/
structure Stacked (frames : List Frame) : Prop where
  root : ∃ opened bottom, frames = opened ++ [bottom] ∧ bottom.isRoot = true ∧
    ∀ f ∈ opened, f.isRoot = false
  clauses : frames.IsChain fun f g => f.isElseIf = true → g.awaits = true

theorem isElseIf_append (f : Frame) (n : Node) : (f.append n).isElseIf = f.isElseIf :=
  append_congr isElseIf (fun f => by cases f <;> rfl) f n

theorem isIf_append (f : Frame) (n : Node) : (f.append n).isIf = f.isIf :=
  append_congr isIf (fun f => by cases f <;> rfl) f n

theorem isIf_of_awaits {f : Frame} (h : f.awaits = true) : f.isIf = true := by
  cases f with
  | ifBlock start blank condition elseIf children otherwise => rfl
  | _ => exact nomatch h

theorem isRoot_of_isIf {f : Frame} (h : f.isIf = true) : f.isRoot = false := by
  cases f with
  | root children => exact nomatch h
  | _ => rfl

namespace Stacked

variable {f g : Frame} {frames rest : List Frame} {n : Node}

theorem ofRoot (children : List Node) : Stacked [.root children] :=
  ⟨⟨[], .root children, rfl, rfl, nofun⟩, .singleton _⟩

theorem ne_nil (h : Stacked frames) : frames ≠ [] := by
  obtain ⟨opened, bottom, rfl, -⟩ := h.root
  exact List.append_ne_nil_of_right_ne_nil _ (List.cons_ne_nil _ _)

/-- Something is opened. -/
theorem cons (h : Stacked rest) (hroot : f.isRoot = false)
    (hclause : f.isElseIf = true → ∀ g ∈ rest.head?, g.awaits = true) : Stacked (f :: rest) := by
  obtain ⟨opened, bottom, rfl, hbottom, hopened⟩ := h.root
  refine ⟨⟨f :: opened, bottom, rfl, hbottom, fun g hg => ?_⟩,
    List.isChain_cons.2 ⟨fun g hg hf => hclause hf g hg, h.clauses⟩⟩
  rcases List.mem_cons.1 hg with rfl | hg
  · exact hroot
  · exact hopened g hg

/-- Something is closed. -/
theorem tail (h : Stacked (f :: rest)) (hroot : f.isRoot = false) : Stacked rest := by
  obtain ⟨opened, bottom, heq, hbottom, hopened⟩ := h.root
  cases opened with
  | nil =>
    obtain ⟨rfl, -⟩ := List.cons.inj heq
    exact nomatch hbottom.symm.trans hroot
  | cons g opened =>
    obtain ⟨-, rfl⟩ := List.cons.inj heq
    exact ⟨⟨opened, bottom, rfl, hbottom, fun x hx => hopened x (List.mem_cons_of_mem _ hx)⟩,
      (List.isChain_cons.1 h.clauses).2⟩

/-- The innermost frame is changed. -/
theorem replace (h : Stacked (f :: rest)) (hroot : g.isRoot = f.isRoot)
    (hclause : g.isElseIf = f.isElseIf) :
    Stacked (g :: rest) := by
  obtain ⟨hfront, hrest⟩ := List.isChain_cons.1 h.clauses
  obtain ⟨opened, bottom, heq, hbottom, hopened⟩ := h.root
  refine ⟨?_, List.isChain_cons.2 ⟨fun x hx hg => hfront x hx (hclause ▸ hg), hrest⟩⟩
  cases opened with
  | nil =>
    obtain ⟨rfl, rfl⟩ := List.cons.inj heq
    exact ⟨[], g, rfl, hroot.trans hbottom, nofun⟩
  | cons y opened =>
    obtain ⟨rfl, rfl⟩ := List.cons.inj heq
    refine ⟨g :: opened, bottom, rfl, hbottom, fun x hx => ?_⟩
    rcases List.mem_cons.1 hx with rfl | hx
    · exact hroot.trans (hopened f List.mem_cons_self)
    · exact hopened x (List.mem_cons_of_mem _ hx)

theorem appendNode (h : Stacked frames) (n : Node) : Stacked (appendNode n frames) := by
  cases frames with
  | nil => exact absurd rfl h.ne_nil
  | cons f rest => exact h.replace (isRoot_append f n) (isElseIf_append f n)

/-- An `else` part is opened. -/
theorem openElse {c : Cursor} {elseIf : Bool} (h : Stacked frames)
    (haccepts : Reader.acceptsElse ⟨c, frames⟩ elseIf = true) (start : Nat) :
    Stacked (Reader.openElse start frames) := by
  obtain ⟨_, _, _, _, _, _, rfl⟩ | ⟨-, _, _, _, _, _, rfl⟩ := acceptsElse_eq_true haccepts
  · exact h.replace rfl rfl
  · exact h.replace rfl rfl

end Stacked

end Frame

open PromptMarkup.Frame (Stacked)

/-- A step keeps the stack in order. -/
theorem Reader.Change.stacked {c : Cursor} {stop : Nat} {frames frames' : List Frame}
    (h : Change c stop frames frames') (hframes : Stacked frames) : Stacked frames' := by
  cases h with
  | added => exact hframes.appendNode _
  | @opened f empty spans marked starts tag plain blank =>
    -- what is opened goes on top of what is open
    refine hframes.cons ?_ fun hclause => nomatch hclause.symm.trans plain
    cases frame : f with
    | root children => exact nomatch frame ▸ starts
    | _ => rfl
  | otherwise haccepts => exact hframes.openElse haccepts _
  | elseIf condition embedded haccepts =>
    -- an `else if` needs an `if` below it, which has just got its else part
    refine (hframes.openElse haccepts _).cons rfl fun _ g hg => ?_
    obtain ⟨_, _, _, _, _, _, rfl⟩ | ⟨hfalse, -⟩ := acceptsElse_eq_true haccepts
    · exact Option.some.inj hg ▸ rfl
    · exact nomatch hfalse
  | closedIf h =>
    -- closing takes frames off, down to the `if` that was opened first
    exact closeIf_invariant (fun _ h => h)
      (fun _ _ _ _ _ _ _ h => (h.tail rfl).appendNode _) hframes h
  | closedFor h =>
    obtain ⟨_, _, _, _, _, rest, rfl, rfl⟩ := closeFor_eq_ok h
    exact (hframes.tail rfl).appendNode _
  | closedElement h =>
    obtain ⟨_, _, _, rest, rfl, rfl⟩ := closeElement_eq_ok h
    exact (hframes.tail rfl).appendNode _

/-- An `endif` takes an `if` and the `else if` clauses on top of it from the stack, and nothing
else. -/
theorem closeIf_of_stacked {f : Frame} {rest : List Frame} (h : Stacked (f :: rest))
    (hf : f.isIf = true) (t : Trim) (closeStart stop : Nat) :
    ∃ clauses opener below n, f :: rest = clauses ++ opener :: below ∧
    (∀ g ∈ clauses, g.isElseIf = true) ∧
      opener.isIf = true ∧ opener.isElseIf = false ∧
      closeIf t closeStart stop none (f :: rest) = .ok (appendNode n below) := by
  induction rest generalizing f with
  | nil => exact absurd rfl (h.tail (Frame.isRoot_of_isIf hf)).ne_nil
  | cons g rest ih =>
    cases f with
    | ifBlock start blank condition elseIf children otherwise =>
      rw [closeIf_ifBlock]
      cases elseIf with
      | false => exact ⟨[], _, g :: rest, _, rfl, nofun, rfl, rfl, rfl⟩
      | true =>
        -- the clause goes into the `else` part of the frame below, which is closed next
        have hg : g.isIf = true := Frame.isIf_of_awaits
          ((List.isChain_cons.1 h.clauses).1 g rfl rfl)
        obtain ⟨clauses, opener, below, n, heq, hclauses, hopener, hplain, hclose⟩ :=
          ih ((h.tail rfl).appendNode _) ((Frame.isIf_append g _).trans hg)
        cases clauses with
        | nil =>
          obtain ⟨rfl, rfl⟩ := List.cons.inj heq
          refine ⟨[_], g, rest, n, rfl, fun x hx => List.mem_singleton.1 hx ▸ rfl, hg, ?_, hclose⟩
          rwa [Frame.isElseIf_append] at hplain
        | cons x clauses =>
          obtain ⟨rfl, rfl⟩ := List.cons.inj heq
          refine ⟨_ :: g :: clauses, opener, below, n, rfl, fun x hx => ?_, hopener, hplain, hclose⟩
          rcases List.mem_cons.1 hx with rfl | hx
          · rfl
          · rcases List.mem_cons.1 hx with rfl | hx
            · rw [← Frame.isElseIf_append]
              exact hclauses _ List.mem_cons_self
            · exact hclauses x (List.mem_cons_of_mem _ hx)
    | _ => exact nomatch hf

namespace Reader

variable {s : List Char} {r r' : Reader}

/-- The readers that a text leads to. -/
inductive Reaches [ConfigReader] (s : List Char) : Reader → Prop
  | start : Reaches s (Reader.ofText s)
  | step {r r' : Reader} (reached : Reaches s r) (more : r.cursor.atEnd = false)
    (h : r.step = .ok r') : Reaches s r'

/-- A reader stands in the text, its stack is in order, and the blocks on it know what is in front
of them. -/
structure Steady (s : List Char) (r : Reader) : Prop where
  place : (Cursor.ofText s).LeadsTo r.cursor
  stacked : Stacked r.frames
  openings : ∀ f ∈ r.frames, ∀ x ∈ f.opening?, ∃ c, (Cursor.ofText s).LeadsTo c ∧
    x = (c.offset, blankBefore c)

theorem steady_ofText (s : List Char) : (Reader.ofText s).Steady s :=
  ⟨.refl _, .ofRoot [], fun _ hf => List.mem_singleton.1 hf ▸ nofun⟩

theorem Steady.step [ConfigReader] (h : r.Steady s) (hstep : r.step = .ok r') : r'.Steady s := by
  obtain ⟨hplace, hchange⟩ := (change_step r).ok r' hstep
  refine ⟨h.place.trans hplace.of_step, hchange.stacked h.stacked, fun f hf x hx => ?_⟩
  rcases hchange.frames f hf with ⟨g, hg, hstays⟩ | ⟨-, hblank⟩
  · exact h.openings g hg x (hstays.opening ▸ hx)
  · exact ⟨r.cursor, h.place, hblank x hx⟩

theorem Reaches.steady [ConfigReader] (h : Reaches s r) : r.Steady s := by
  induction h with
  | start => exact steady_ofText s
  | step _ _ hstep ih => exact ih.step hstep

end Reader

end PromptMarkup

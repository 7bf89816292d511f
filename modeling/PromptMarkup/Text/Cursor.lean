/-
A place in a text.

A `Cursor` splits a text in two: the characters in front of it, nearest first, and those that
follow.  It also knows its byte offset.

* `Cursor.text_step`, `Cursor.text_move` — moving a cursor does not change the text;
* `Cursor.step_isAt`, `Cursor.move_isAt` — the offset stays the number of bytes in front of the
  cursor.
-/
import PromptMarkup.Text.Blank
import PromptMarkup.Text.Position

namespace PromptMarkup.Text

/-- A place in a text, with what comes before it (nearest first) and what follows it. -/
structure Cursor where
  before : List Char
  rest : List Char
  offset : Nat
deriving DecidableEq, Repr

/-- The cursor at the start of a text. -/
def Cursor.ofText (s : List Char) : Cursor :=
  ⟨[], s, 0⟩

/-- The whole text a cursor stands in. -/
def Cursor.text (c : Cursor) : List Char :=
  c.before.reverse ++ c.rest

/-- The offset is the number of bytes in front of the cursor. -/
def Cursor.IsAt (c : Cursor) : Prop :=
  c.offset = byteLength c.before.reverse

/-- Moves over one character; at the end of the text it stays. -/
def Cursor.step (c : Cursor) : Cursor :=
  match c.rest with
  | [] => c
  | x :: rest => ⟨x :: c.before, rest, c.offset + x.utf8Size⟩

/-- Moves over the given number of characters. -/
def Cursor.move : Nat → Cursor → Cursor
  | 0, c => c
  | n + 1, c => Cursor.move n c.step

/-- Moves over the characters in front of it for which `p` holds. -/
def Cursor.moveWhile (p : Char → Bool) (c : Cursor) : Cursor :=
  c.move (c.rest.takeWhile p).length

/-- Moves over white space. -/
def Cursor.skipBlank (c : Cursor) : Cursor :=
  c.moveWhile isBlank

/-- Moves up to a byte offset. -/
def Cursor.moveTo (offset : Nat) (c : Cursor) : Cursor :=
  go c.rest.length c
where
  go : Nat → Cursor → Cursor
    | 0, c => c
    | n + 1, c => if c.offset < offset then go n c.step else c

/-- The given text follows. -/
def Cursor.sees (c : Cursor) (s : String) : Bool :=
  s.toList.isPrefixOf c.rest

/-- The text ends here. -/
def Cursor.atEnd (c : Cursor) : Bool :=
  c.rest.isEmpty

theorem Cursor.text_step (c : Cursor) : c.step.text = c.text := by
  cases c with
  | mk before rest offset => cases rest <;> simp [step, text]

theorem Cursor.text_move (n : Nat) (c : Cursor) : (c.move n).text = c.text := by
  induction n generalizing c with
  | zero => rfl
  | succ n ih => rw [move, ih, text_step]

theorem Cursor.step_isAt {c : Cursor} (h : c.IsAt) : c.step.IsAt := by
  cases c with
  | mk before rest offset =>
    cases rest with
    | nil => exact h
    | cons x rest =>
      simp only [IsAt] at h
      simp [step, IsAt, byteLength_append, byteLength, h]

theorem Cursor.move_isAt (n : Nat) {c : Cursor} (h : c.IsAt) : (c.move n).IsAt := by
  induction n generalizing c with
  | zero => exact h
  | succ n ih => exact ih (step_isAt h)

end PromptMarkup.Text

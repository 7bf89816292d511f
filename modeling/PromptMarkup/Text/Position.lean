/-
Places in a text.

Places in a source text are counted in bytes of its UTF-8 form, while the text itself is handled as
a list of characters.  A `Position` is a line and a column, both counted from one; a column counts
characters.

* `byteLength` — the length of the UTF-8 form; `byteLength_append` says that it is additive;
* `dropBytes?` — what follows a byte offset, if a character starts there or the text ends there;
* `slice?` — the text between two offsets, if both are such places; `slice?_append` says which text
  that is;
* `lineStarts` — the offsets at which lines start;
* `positionAt` — the position of an offset; beyond the end it is the end of the text, and inside a
  character the column is one;
* `offsetAt` — the offset of a position; a column past the end of its line goes on into the text
  that follows, and a line that does not exist is the end of the text;
* `lineAt` — the line of the text that holds an offset.
-/
namespace PromptMarkup.Text

/-! ### Byte offsets -/

/-- The number of bytes of the UTF-8 form of a text. -/
def byteLength : List Char → Nat
  | [] => 0
  | c :: rest => c.utf8Size + byteLength rest

theorem byteLength_append (s t : List Char) :
    byteLength (s ++ t) = byteLength s + byteLength t := by
  induction s with
  | nil => simp [byteLength]
  | cons c rest ih => simp [byteLength, ih, Nat.add_assoc]

/-- What follows the first `n` bytes, if they are whole characters of the text. -/
def dropBytes? : Nat → List Char → Option (List Char)
  | 0, s => some s
  | _ + 1, [] => none
  | n + 1, c :: rest => if n + 1 < c.utf8Size then none else dropBytes? (n + 1 - c.utf8Size) rest

/-- The first `n` bytes, if they are whole characters of the text. -/
def takeBytes? : Nat → List Char → Option (List Char)
  | 0, _ => some []
  | _ + 1, [] => none
  | n + 1, c :: rest =>
    if n + 1 < c.utf8Size then none
    else (takeBytes? (n + 1 - c.utf8Size) rest).map (c :: ·)

/-- The text between two byte offsets, if both are places between characters and in order. -/
def slice? (s : List Char) (start stop : Nat) : Option (List Char) :=
  if stop < start then none
  else (dropBytes? start s).bind (takeBytes? (stop - start))

/-- The text between two byte offsets, empty where there is none. -/
def slice (s : List Char) (start stop : Nat) : List Char :=
  (slice? s start stop).getD []

/-- The text from a byte offset on, empty where there is none. -/
def sliceFrom (s : List Char) (start : Nat) : List Char :=
  (dropBytes? start s).getD []

/-- What stands in front of an offset can be dropped. -/
theorem dropBytes?_append (front rest : List Char) :
    dropBytes? (byteLength front) (front ++ rest) = some rest := by
  induction front with
  | nil => cases rest <;> rfl
  | cons x front ih =>
    obtain ⟨k, hk⟩ := Nat.exists_eq_succ_of_ne_zero (Nat.ne_of_gt (Char.utf8Size_pos x))
    have hlength : byteLength (x :: front) = k + byteLength front + 1 := by
      rw [byteLength, hk]
      omega
    rw [hlength, List.cons_append, dropBytes?, if_neg (by omega), hk]
    have hrest : k + byteLength front + 1 - k.succ = byteLength front := by omega
    rw [hrest, ih]

/-- What stands in front of an offset can be taken. -/
theorem takeBytes?_append (front rest : List Char) :
    takeBytes? (byteLength front) (front ++ rest) = some front := by
  induction front with
  | nil => cases rest <;> rfl
  | cons x front ih =>
    obtain ⟨k, hk⟩ := Nat.exists_eq_succ_of_ne_zero (Nat.ne_of_gt (Char.utf8Size_pos x))
    have hlength : byteLength (x :: front) = k + byteLength front + 1 := by
      rw [byteLength, hk]
      omega
    rw [hlength, List.cons_append, takeBytes?, if_neg (by omega), hk]
    have hrest : k + byteLength front + 1 - k.succ = byteLength front := by omega
    rw [hrest, ih]
    rfl

/-- What stands between two offsets is the text between them. -/
theorem slice?_append (front middle rest : List Char) :
    slice? (front ++ (middle ++ rest)) (byteLength front) (byteLength front + byteLength middle) =
      some middle := by
  rw [slice?, if_neg (by omega), dropBytes?_append, Option.bind_some, Nat.add_sub_cancel_left,
    takeBytes?_append]

theorem slice_append (front middle rest : List Char) :
    slice (front ++ (middle ++ rest)) (byteLength front) (byteLength front + byteLength middle) =
      middle := by
  rw [slice, slice?_append, Option.getD_some]

/-! ### Lines and columns -/

/-- A line and a column, both counted from one. -/
structure Position where
  line : Nat
  column : Nat
deriving DecidableEq, Repr

/-- The offsets right after the line feeds of a text that itself starts at `offset`. -/
def lineStartsFrom (offset : Nat) : List Char → List Nat
  | [] => []
  | c :: rest =>
    let next := offset + c.utf8Size
    if c == '\n' then next :: lineStartsFrom next rest else lineStartsFrom next rest

/-- The offsets at which the lines of a text start. -/
def lineStarts (s : List Char) : List Nat :=
  0 :: lineStartsFrom 0 s

/-- The position of a byte offset. -/
def positionAt (s : List Char) (offset : Nat) : Position :=
  let offset := min offset (byteLength s)
  let upTo := (lineStarts s).takeWhile (· ≤ offset)
  let lineStart := upTo.getLast?.getD 0
  ⟨upTo.length, ((slice? s lineStart offset).map List.length).getD 0 + 1⟩

/-- The byte offset of a position. -/
def offsetAt (s : List Char) (p : Position) : Nat :=
  let lineStart? := if p.line = 0 then none else (lineStarts s)[p.line - 1]?
  match lineStart? with
  | none => byteLength s
  | some lineStart => lineStart + byteLength ((sliceFrom s lineStart).take (p.column - 1))

/-- The line that holds a byte offset, without its line feed. -/
def lineAt (s : List Char) (offset : Nat) : List Char :=
  let offset := min offset (byteLength s)
  let before := slice s 0 offset
  let after := sliceFrom s offset
  (before.reverse.takeWhile (· != '\n')).reverse ++ after.takeWhile (· != '\n')

end PromptMarkup.Text

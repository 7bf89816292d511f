/-
Places in a text.

* `Cursor.Meets`, `Cursor.Marks` — the places from a cursor on, and what lies between two of them;
* `Text.IsBoundary` — an offset at which a text can be divided; `isBoundary_offsetAt` — that of a
  position is one;
* `Problem.Lies` — a problem between two places from a cursor on, to which nothing has been
  attached;
* `Lexeme.placed_runFrom` — the tokens of an expression come one after the other, and lie between
  places with what ends them;
* `Readers` — the claims about the readers of the grammar, and `readers`, that they hold;
* `Expr.readEmbedded_eq_ok`, `Expr.lies_of_readEmbedded` — an expression starts where the text goes
  on, and everything in it, or the problem with it, lies between two places.

Design notes: what the readers of the grammar give is followed by a law that is closed under bind
(`Reads`), and all of them are treated in one induction on the bound of their depth (`readers`).  An
expression in round brackets starts behind its bracket; the law therefore speaks of the tokens that
were read and not of the first one.  Where there is no token at all, the problem is put at the start
of the text, which need not be a place from the cursor on (`Problem.Own`).
-/
import PromptMarkup.Expr.Reader
import PromptMarkup.Proofs.Trees

namespace PromptMarkup

open Text (Cursor)

/-! ### Cursors -/

namespace Text.Cursor

theorem step_of_rest {c : Cursor} {x : Char} {rest : List Char} (h : c.rest = x :: rest) :
    c.step.rest = rest ∧ c.step.offset = c.offset + x.utf8Size := by
  unfold step
  split
  · next hnil =>
    rw [hnil] at h
    exact nomatch h
  · next y others hrest =>
    rw [hrest] at h
    obtain ⟨rfl, rfl⟩ := List.cons.inj h
    exact ⟨rfl, rfl⟩

theorem offset_le_step (c : Cursor) : c.offset ≤ c.step.offset := by
  unfold step
  split
  · exact Nat.le_refl _
  · exact Nat.le_add_right _ _

theorem offset_lt_step {c : Cursor} (h : c.rest ≠ []) : c.offset < c.step.offset := by
  unfold step
  split
  · next hrest => exact absurd hrest h
  · next x rest _ => exact Nat.lt_add_of_pos_right (Char.utf8Size_pos x)

theorem offset_le_move (n : Nat) (c : Cursor) : c.offset ≤ (c.move n).offset := by
  induction n generalizing c with
  | zero => exact Nat.le_refl _
  | succ n ih => exact Nat.le_trans (offset_le_step c) (ih c.step)

theorem offset_lt_move {c : Cursor} (h : c.rest ≠ []) {n : Nat} (hn : 0 < n) :
    c.offset < (c.move n).offset := by
  obtain ⟨k, rfl⟩ := Nat.exists_eq_succ_of_ne_zero (Nat.ne_of_gt hn)
  exact Nat.lt_of_lt_of_le (offset_lt_step h) (offset_le_move k c.step)

theorem move_move (m n : Nat) (c : Cursor) : (c.move m).move n = c.move (m + n) := by
  induction m generalizing c with
  | zero => rw [Nat.zero_add, move]
  | succ m ih => rw [Nat.succ_add, move, move, ih]

/-- The offset of the end of the text. -/
def final (c : Cursor) : Nat :=
  c.offset + byteLength c.rest

@[simp] theorem final_step (c : Cursor) : c.step.final = c.final := by
  unfold step
  split
  · rfl
  · next x rest hrest =>
    rw [final, final, hrest, byteLength, Nat.add_assoc]

@[simp] theorem final_move (n : Nat) (c : Cursor) : (c.move n).final = c.final := by
  induction n generalizing c with
  | zero => rfl
  | succ n ih => rw [move, ih, final_step]

theorem offset_le_final (c : Cursor) : c.offset ≤ c.final :=
  Nat.le_add_right _ _

/-- A cursor can be moved to another one. -/
def LeadsTo (c c' : Cursor) : Prop :=
  ∃ n, c' = c.move n

namespace LeadsTo

variable {b c d : Cursor}

theorem refl (c : Cursor) : c.LeadsTo c :=
  ⟨0, rfl⟩

theorem trans (h : b.LeadsTo c) (h' : c.LeadsTo d) : b.LeadsTo d := by
  obtain ⟨m, rfl⟩ := h
  obtain ⟨n, rfl⟩ := h'
  exact ⟨m + n, move_move m n b⟩

theorem move (h : b.LeadsTo c) (n : Nat) : b.LeadsTo (c.move n) :=
  h.trans ⟨n, rfl⟩

theorem step (h : b.LeadsTo c) : b.LeadsTo c.step :=
  h.move 1

theorem of_step (h : b.step.LeadsTo c) : b.LeadsTo c :=
  (refl b).step.trans h

theorem step_step (h : b.LeadsTo c) : b.step.LeadsTo c.step := by
  obtain ⟨n, rfl⟩ := h
  exact ⟨n, move_move n 1 b⟩

theorem skipBlank (h : b.LeadsTo c) : b.LeadsTo c.skipBlank :=
  h.move _

theorem moveWhile (h : b.LeadsTo c) (p : Char → Bool) : b.LeadsTo (c.moveWhile p) :=
  h.move _

theorem moveTo (h : b.LeadsTo c) (offset : Nat) : b.LeadsTo (c.moveTo offset) := by
  have hgo : ∀ n (c : Cursor), b.LeadsTo c → b.LeadsTo (Cursor.moveTo.go offset n c) := by
    intro n
    induction n with
    | zero => exact fun c h => h
    | succ n ih =>
      intro c h
      unfold Cursor.moveTo.go
      split
      · exact ih c.step h.step
      · exact h
  exact hgo _ c h

theorem offset_le (h : b.LeadsTo c) : b.offset ≤ c.offset := by
  obtain ⟨n, rfl⟩ := h
  exact offset_le_move n b

theorem final_eq (h : b.LeadsTo c) : c.final = b.final := by
  obtain ⟨n, rfl⟩ := h
  exact final_move n b

theorem final_ofText {s : List Char} (h : (ofText s).LeadsTo c) : c.final = byteLength s := by
  rw [h.final_eq, final, ofText, Nat.zero_add]

theorem text_eq {s : List Char} (h : (ofText s).LeadsTo c) : c.before.reverse ++ c.rest = s := by
  obtain ⟨n, rfl⟩ := h
  exact text_move n (ofText s)

/-- The offset of a place of a text is the number of bytes in front of it. -/
theorem offset_eq {s : List Char} (h : (ofText s).LeadsTo c) :
    c.offset = byteLength c.before.reverse := by
  obtain ⟨n, rfl⟩ := h
  exact move_isAt n (c := ofText s) rfl

end LeadsTo

/-- An offset is that of a place from a cursor on. -/
def Meets (c : Cursor) (n : Nat) : Prop :=
  ∃ c', c.LeadsTo c' ∧ c'.offset = n

theorem LeadsTo.meets {c c' : Cursor} (h : c.LeadsTo c') : c.Meets c'.offset :=
  ⟨c', h, rfl⟩

theorem meets_self (c : Cursor) : c.Meets c.offset :=
  (LeadsTo.refl c).meets

theorem Meets.behind {b c : Cursor} {n : Nat} (h : c.Meets n) (hb : b.LeadsTo c) : b.Meets n := by
  obtain ⟨c', hc, hn⟩ := h
  exact ⟨c', hb.trans hc, hn⟩

theorem Meets.le {c : Cursor} {n : Nat} (h : c.Meets n) : c.offset ≤ n := by
  obtain ⟨c', hc, rfl⟩ := h
  exact hc.offset_le

/-- The end of the text is a place. -/
theorem meets_final (c : Cursor) : c.Meets c.final := by
  induction hrest : c.rest generalizing c with
  | nil =>
    have hfinal : c.final = c.offset := by rw [final, hrest, byteLength, Nat.add_zero]
    exact hfinal ▸ meets_self c
  | cons x rest ih =>
    have hstep := ih c.step (step_of_rest hrest).1
    rw [final_step] at hstep
    exact hstep.behind (LeadsTo.refl c).step

/-- A cursor that is moved up to the offset of a place comes there. -/
theorem offset_moveTo {c : Cursor} {n : Nat} (h : c.Meets n) : (c.moveTo n).offset = n := by
  obtain ⟨d, hd, rfl⟩ := h
  -- the induction is on the fuel, which is the length of what is left
  have hgo : ∀ n (c : Cursor), c.LeadsTo d → c.rest.length ≤ n →
    (moveTo.go d.offset n c).offset = d.offset := by
    intro n
    induction n with
    | zero =>
      -- at the end of the text there is no place behind this one
      intro c hd hn
      obtain hrest : c.rest = [] := List.length_eq_zero_iff.1 (Nat.le_zero.1 hn)
      have hfinal := offset_le_final d
      rw [hd.final_eq, final, hrest, byteLength, Nat.add_zero] at hfinal
      exact Nat.le_antisymm hd.offset_le hfinal
    | succ n ih =>
      intro c hd hn
      unfold moveTo.go
      split
      · next hlt =>
        -- the place is here, or behind the next character
        obtain ⟨k, rfl⟩ := hd
        cases k with
        | zero => exact absurd hlt (Nat.lt_irrefl _)
        | succ k =>
          refine ih c.step ⟨k, rfl⟩ ?_
          unfold step
          split
          · next hrest =>
            rw [hrest]
            exact Nat.zero_le n
          · next x rest hrest =>
            rw [hrest, List.length_cons] at hn
            exact Nat.le_of_succ_le_succ hn
      · next hlt => exact Nat.le_antisymm hd.offset_le (Nat.not_lt.1 hlt)
  exact hgo _ c hd (Nat.le_refl _)

theorem move_of_atEnd {c : Cursor} (h : c.rest = []) (n : Nat) : c.move n = c := by
  induction n with
  | zero => rfl
  | succ n ih =>
    have hstep : c.step = c := by
      unfold step
      rw [h]
    rw [move, hstep, ih]

/-- Of the places from a cursor on each has its own offset. -/
theorem LeadsTo.eq_of_offset {b c d : Cursor} (hc : b.LeadsTo c) (hd : b.LeadsTo d)
    (h : c.offset = d.offset) :
    c = d := by
  have hle : ∀ m n, m ≤ n → (b.move m).offset = (b.move n).offset → b.move m = b.move n := by
    -- offsets grow with every move, up to the end of the text
    intro m n hmn heq
    obtain ⟨k, rfl⟩ := Nat.exists_eq_add_of_le hmn
    rw [← move_move] at heq ⊢
    by_cases hend : (b.move m).rest = []
    · rw [move_of_atEnd hend]
    · rcases Nat.eq_zero_or_pos k with rfl | hpos
      · rfl
      · exact absurd heq (Nat.ne_of_lt (offset_lt_move hend hpos))
  obtain ⟨m, rfl⟩ := hc
  obtain ⟨n, rfl⟩ := hd
  rcases Nat.le_total m n with hmn | hmn
  · exact hle m n hmn h
  · exact (hle n m hmn h.symm).symm

/-- Of the places from a cursor on each has its own rest of the text. -/
theorem LeadsTo.eq_of_rest {b c d : Cursor} (hc : b.LeadsTo c) (hd : b.LeadsTo d)
    (h : c.rest = d.rest) : c = d := by
  have hfinal := hc.final_eq.trans hd.final_eq.symm
  rw [final, final, h] at hfinal
  exact hc.eq_of_offset hd (Nat.add_right_cancel hfinal)

/-- A cursor that is moved up to the offset of a place comes to this place. -/
theorem LeadsTo.moveTo_eq {c d : Cursor} (h : c.LeadsTo d) : c.moveTo d.offset = d :=
  ((LeadsTo.refl c).moveTo d.offset).eq_of_offset h (offset_moveTo h.meets)

/-- Two offsets are places from a cursor on, in order. -/
structure Marks (c : Cursor) (m n : Nat) : Prop where
  le : m ≤ n
  first : c.Meets m
  last : c.Meets n

theorem Marks.behind {b c : Cursor} {m n : Nat} (h : c.Marks m n) (hb : b.LeadsTo c) :
    b.Marks m n :=
  ⟨h.le, h.first.behind hb, h.last.behind hb⟩

theorem Marks.trans {c : Cursor} {l m n : Nat} (h : c.Marks l m) (h' : c.Marks m n) : c.Marks l n :=
  ⟨Nat.le_trans h.le h'.le, h.first, h'.last⟩

/-- From one cursor to another. -/
theorem LeadsTo.marks {b c d : Cursor} (h : b.LeadsTo c) (h' : c.LeadsTo d) :
    b.Marks c.offset d.offset :=
  ⟨h'.offset_le, h.meets, (h.trans h').meets⟩

end Text.Cursor

/-! ### Places in a text -/

namespace Text

/-- A text can be divided at an offset: so many bytes are the first characters of it. -/
def IsBoundary (s : List Char) (n : Nat) : Prop :=
  ∃ front rest, s = front ++ rest ∧ byteLength front = n

theorem isBoundary_zero (s : List Char) : IsBoundary s 0 :=
  ⟨[], s, rfl, rfl⟩

theorem isBoundary_length (s : List Char) : IsBoundary s (byteLength s) :=
  ⟨s, [], (List.append_nil s).symm, rfl⟩

theorem IsBoundary.le {s : List Char} {n : Nat} (h : IsBoundary s n) : n ≤ byteLength s := by
  obtain ⟨front, rest, rfl, rfl⟩ := h
  rw [byteLength_append]
  exact Nat.le_add_right _ _

/-- Every place from the start of a text on is one. -/
theorem Cursor.Meets.isBoundary {s : List Char} {n : Nat} (h : (Cursor.ofText s).Meets n) :
    IsBoundary s n := by
  obtain ⟨c, hc, rfl⟩ := h
  exact ⟨_, _, hc.text_eq.symm, hc.offset_eq.symm⟩

/-- A line of a text starts at a place. -/
theorem isBoundary_of_mem_lineStarts {s : List Char} {n : Nat} (h : n ∈ lineStarts s) :
    IsBoundary s n := by
  -- the induction is on the text, from any offset on; a line starts behind a break
  have hfrom : ∀ (s : List Char) (offset : Nat), n ∈ lineStartsFrom offset s →
      ∃ front rest, s = front ++ rest ∧ offset + byteLength front = n := by
    intro s
    induction s with
    | nil => exact fun _ h => nomatch h
    | cons x s ih =>
      intro offset h
      have hlater : n ∈ lineStartsFrom (offset + x.utf8Size) s →
          ∃ front rest, x :: s = front ++ rest ∧ offset + byteLength front = n := by
        intro h
        obtain ⟨front, rest, rfl, hn⟩ := ih _ h
        exact ⟨x :: front, rest, rfl, by rw [byteLength, ← Nat.add_assoc, hn]⟩
      unfold lineStartsFrom at h
      dsimp only at h
      split at h
      · rcases List.mem_cons.1 h with rfl | h
        · exact ⟨[x], s, rfl, rfl⟩
        · exact hlater h
      · exact hlater h
  rcases List.mem_cons.1 h with rfl | h
  · exact isBoundary_zero s
  · obtain ⟨front, rest, hs, hn⟩ := hfrom s 0 h
    exact ⟨front, rest, hs, by rw [← hn, Nat.zero_add]⟩

/-- The offset of a position is a place, even if there is no such position. -/
theorem isBoundary_offsetAt (s : List Char) (position : Position) :
    IsBoundary s (offsetAt s position) := by
  unfold offsetAt
  dsimp only
  split
  · exact isBoundary_length s
  · next start hstart =>
    have hmem : start ∈ lineStarts s := by
      split at hstart
      · exact nomatch hstart
      · exact List.mem_of_getElem? hstart
    obtain ⟨front, rest, rfl, rfl⟩ := isBoundary_of_mem_lineStarts hmem
    refine ⟨front ++ rest.take (position.column - 1), rest.drop (position.column - 1), ?_, ?_⟩
    · rw [List.append_assoc, List.take_append_drop]
    · rw [byteLength_append, sliceFrom, dropBytes?_append, Option.getD_some]

end Text

/-- A problem that lies between two places from a cursor on, to which neither a text nor a path has
been attached. -/
structure Problem.Lies (c : Cursor) (p : Problem) : Prop where
  marks : c.Marks p.start p.stop
  source : p.source = none
  prompt : p.prompt = none

theorem Problem.Lies.behind {b c : Cursor} {p : Problem} (h : p.Lies c) (hb : b.LeadsTo c) :
    p.Lies b :=
  ⟨h.marks.behind hb, h.source, h.prompt⟩

theorem Problem.lies_of_marks {c : Cursor} {fault : Fault} {m n : Nat} (h : c.Marks m n) :
    Problem.Lies c ⟨fault, m, n, none, none⟩ :=
  ⟨h, rfl, rfl⟩

/-- A problem of the text from a cursor on, to which neither a text nor a path has been attached.
If nothing could be read, it is put at the start of the text. -/
structure Problem.Own (c : Cursor) (p : Problem) : Prop where
  marks : c.Marks p.start p.stop ∨ p.start = 0 ∧ p.stop = 0
  source : p.source = none
  prompt : p.prompt = none

theorem Problem.Own.behind {b c : Cursor} {p : Problem} (h : p.Own c) (hb : b.LeadsTo c) :
    p.Own b :=
  ⟨h.marks.imp_left fun hmarks => hmarks.behind hb, h.source, h.prompt⟩

theorem Problem.Lies.own {c : Cursor} {p : Problem} (h : p.Lies c) : p.Own c :=
  ⟨.inl h.marks, h.source, h.prompt⟩

theorem Problem.own_of_marks {c : Cursor} {fault : Fault} {m n : Nat} (h : c.Marks m n) :
    Problem.Own c ⟨fault, m, n, none, none⟩ :=
  (lies_of_marks h).own

/-! ### Tokens -/

theorem utf8Size_of_isHexDigit {x : Char} (h : isHexDigit x = true) : x.utf8Size = 1 := by
  have hsmall : x.val ≤ 127 := by
    simp only [isHexDigit, Char.isDigit, Bool.or_eq_true, Bool.and_eq_true, decide_eq_true_eq,
      Char.le_def] at h
    rcases h with (⟨-, h⟩ | ⟨-, h⟩) | ⟨-, h⟩
    · exact UInt32.le_trans h (by decide)
    · exact UInt32.le_trans h (by decide)
    · exact UInt32.le_trans h (by decide)
  exact if_pos hsmall

/-- A text follows at an offset, which is that of a place from a cursor on. -/
def Text.Cursor.Continues (c : Cursor) (n : Nat) (s : List Char) : Prop :=
  ∃ d, c.LeadsTo d ∧ d.offset = n ∧ d.rest = s

namespace Text.Cursor.Continues

variable {c : Cursor} {n : Nat} {x : Char} {s : List Char}

theorem meets (h : c.Continues n s) : c.Meets n := by
  obtain ⟨d, hd, rfl, -⟩ := h
  exact hd.meets

theorem tail (h : c.Continues n (x :: s)) : c.Continues (n + x.utf8Size) s := by
  obtain ⟨d, hd, rfl, hrest⟩ := h
  obtain ⟨hs, hn⟩ := step_of_rest hrest
  exact ⟨d.step, hd.step, hn, hs⟩

theorem tail_of_size (h : c.Continues n (x :: s)) (hx : x.utf8Size = 1) : c.Continues (n + 1) s :=
  hx ▸ h.tail

theorem tail_of_digit (h : c.Continues n (x :: s)) (hx : isHexDigit x = true) :
    c.Continues (n + 1) s :=
  h.tail_of_size (utf8Size_of_isHexDigit hx)

end Text.Cursor.Continues

namespace Lexeme

theorem Punct.length_text_pos (p : Punct) : 0 < p.text.length := by
  cases p <;> decide

/-- A decimal number is at least one character long. -/
theorem length_decimalAt_pos {s : List Char} (h : startsNumber s = true) : 0 < (decimalAt s).2 := by
  unfold decimalAt
  dsimp only
  unfold startsNumber at h
  split at h
  · next d rest =>
    have hpoint : ('.' :: d :: rest).takeWhile (fun c => c.isDigit || c == '_') = [] := rfl
    simp only [hpoint, List.length_nil, List.drop_zero]
    omega
  · next c rest _ =>
    have hwhole : (c :: rest).takeWhile (fun c => c.isDigit || c == '_') =
        c :: rest.takeWhile (fun c => c.isDigit || c == '_') :=
        List.takeWhile_cons_of_pos (by simp [h])
    simp only [hwhole, List.length_cons]
    omega
  · exact nomatch h

/-- A number takes at least one character. -/
theorem readNumber_eq_ok {c after : Cursor} {token : Token} (hstarts : startsNumber c.rest = true)
    (h : readNumber c = .ok (token, after)) : ∃ n, 0 < n ∧ after = c.move n := by
  have hpos := length_decimalAt_pos hstarts
  unfold readNumber at h
  split at h
  · split at h
    · dsimp only at h
      split at h
      · exact nomatch h
      · obtain ⟨-, rfl⟩ := Prod.mk.inj (Except.ok.inj h)
        exact ⟨_, by omega, rfl⟩
    · obtain ⟨-, rfl⟩ := Prod.mk.inj (Except.ok.inj h)
      exact ⟨_, hpos, rfl⟩
  · obtain ⟨-, rfl⟩ := Prod.mk.inj (Except.ok.inj h)
    exact ⟨_, hpos, rfl⟩

theorem readNumber_eq_error {c : Cursor} {p : Problem} (h : readNumber c = .error p) :
    p.Lies c := by
  unfold readNumber at h
  split at h
  · split at h
    · dsimp only at h
      split at h
      · obtain rfl := Except.error.inj h
        exact Problem.lies_of_marks ((Cursor.LeadsTo.refl c).marks ⟨_, rfl⟩)
      · exact nomatch h
    · exact nomatch h
  · exact nomatch h

/-- The problem with a string lies between its opening quote and a place behind it. -/
theorem readStringBody_eq_error {quote : Char} {c : Cursor} {s held : List Char}
    {offset length : Nat} {p : Problem} (hs : c.Continues offset s)
    (h : readStringBody quote c.offset s offset length held = .error p) : p.Lies c := by
  have hown : ∀ {fault : Fault} {n : Nat} {s : List Char}, c.Continues n s →
      Except.error ⟨fault, c.offset, n, none, none⟩ =
        (.error p : Except Problem (List Char × Nat)) →
      p.Lies c := by
    intro fault n s hn heq
    obtain rfl := Except.error.inj heq
    exact Problem.lies_of_marks ⟨hn.meets.le, Cursor.meets_self c, hn.meets⟩
  -- an escape behind its backslash, with two and with four digits
  have htwo : ∀ {n : Nat} {a b : Char} {tail : List Char}, c.Continues n ('x' :: a :: b :: tail) →
      (isHexDigit a && isHexDigit b) = true → c.Continues (n + 3) tail := by
    intro n a b tail hn hdigits
    obtain ⟨ha, hb⟩ := (Bool.and_eq_true _ _).mp hdigits
    exact ((hn.tail_of_size rfl).tail_of_digit ha).tail_of_digit hb
  have hfour : ∀ {n : Nat} {a b d e : Char} {tail : List Char},
      c.Continues n ('u' :: a :: b :: d :: e :: tail) →
      (isHexDigit a && isHexDigit b && isHexDigit d && isHexDigit e) = true →
      c.Continues (n + 5) tail := by
    intro n a b d e tail hn hdigits
    simp only [Bool.and_eq_true] at hdigits
    obtain ⟨⟨⟨ha, hb⟩, hd⟩, he⟩ := hdigits
    have hab : c.Continues (n + 3) (d :: e :: tail) :=
      ((hn.tail_of_size rfl).tail_of_digit ha).tail_of_digit hb
    exact (hab.tail_of_digit hd).tail_of_digit he
  fun_induction readStringBody quote c.offset s offset length held with
  | case1 => exact hown hs h
  | case2 => exact nomatch h
  | case3 offset length held x rest _ _ _ ih => exact ih hs.tail h
  | case4 => exact hown hs.tail h
  | case5 offset length held x _ _ _ a b tail hdigits _ _ ih => exact ih (htwo hs.tail hdigits) h
  | case6 offset length held x _ _ _ a b tail hdigits => exact hown (htwo hs.tail hdigits) h
  | case7 => exact hown (hs.tail.tail_of_size rfl) h
  | case8 offset length held x _ _ _ a b d e tail hdigits _ _ ih =>
    exact ih (hfour hs.tail hdigits) h
  | case9 offset length held x _ _ _ a b d e tail hdigits => exact hown (hfour hs.tail hdigits) h
  | case10 => exact hown (hs.tail.tail_of_size rfl) h
  | case11 offset length held x _ _ _ y tail _ _ hy =>
    refine hown (hs.tail.tail_of_size ?_) h
    rcases (Bool.or_eq_true _ _).mp hy with hy | hy
    · exact eq_of_beq hy ▸ rfl
    · exact eq_of_beq hy ▸ rfl
  | case12 offset length held x _ _ _ y tail _ _ _ hy ih =>
    exact ih (hs.tail.tail_of_size (eq_of_beq hy ▸ rfl)) h
  | case13 offset length held x _ _ _ y tail _ _ _ _ ih => exact ih hs.tail.tail h

theorem isNamePart_of_isNameStart {x : Char} (h : Text.isNameStart x = true) :
    Text.isNamePart x = true := by
  unfold Text.isNamePart
  unfold Text.isNameStart at h
  rw [h]
  rfl

/-- A token takes at least one character. -/
theorem readToken_eq_ok {c after : Cursor} {x : Char} {rest : List Char} {token : Token}
    (hrest : c.rest = x :: rest) (h : readToken x c = .ok (token, after)) :
    ∃ n, 0 < n ∧ after = c.move n := by
  unfold readToken at h
  -- numbers, strings, names and marks, each of at least one character
  split at h
  · next hstarts => exact readNumber_eq_ok hstarts h
  · split at h
    · unfold readString at h
      split at h
      · next held length _ =>
        obtain ⟨-, rfl⟩ := Prod.mk.inj (Except.ok.inj h)
        exact ⟨length + 1, Nat.succ_pos _, rfl⟩
      · exact nomatch h
    · split at h
      · next hname =>
        obtain ⟨-, rfl⟩ := Prod.mk.inj (Except.ok.inj h)
        refine ⟨_, ?_, rfl⟩
        rw [hrest, List.takeWhile_cons_of_pos (isNamePart_of_isNameStart hname)]
        exact Nat.succ_pos _
      · split at h
        · next p _ =>
          obtain ⟨-, rfl⟩ := Prod.mk.inj (Except.ok.inj h)
          exact ⟨_, Punct.length_text_pos p, rfl⟩
        · exact nomatch h

theorem readToken_eq_error {c : Cursor} {x : Char} {rest : List Char} {p : Problem}
    (hrest : c.rest = x :: rest) (h : readToken x c = .error p) : p.Lies c := by
  unfold readToken at h
  split at h
  · exact readNumber_eq_error h
  · split at h
    · unfold readString at h
      split at h
      -- numbers and strings name places inside of them, a stray character its own
      · exact nomatch h
      · next q hbody =>
        obtain rfl := Except.error.inj h
        exact readStringBody_eq_error ⟨c.step, (Cursor.LeadsTo.refl c).step, rfl, rfl⟩ hbody
    · split at h
      · exact nomatch h
      · split at h
        · exact nomatch h
        · obtain rfl := Except.error.inj h
          have hx : c.Continues (c.offset + x.utf8Size) rest :=
            Cursor.Continues.tail ⟨c, .refl c, rfl, hrest⟩
          exact Problem.lies_of_marks ⟨hx.meets.le, Cursor.meets_self c, hx.meets⟩

/-- A token stands behind the white space in front of it, and reading goes on where it ends. -/
theorem next?_eq_ok {c after : Cursor} {l : Lexeme} (h : next? c = .ok (some l, after)) :
    c.Marks l.start l.stop ∧ l.start < l.stop ∧ l.stop = after.offset ∧ c.LeadsTo after := by
  unfold next? at h
  dsimp only at h
  split at h
  · exact nomatch (Prod.mk.inj (Except.ok.inj h)).1
  · next x rest hrest =>
    split at h
    · next token after' hread =>
      obtain ⟨rfl, rfl⟩ : (⟨token, c.skipBlank.offset, after'.offset⟩ : Lexeme) = l ∧
        after' = after := by
        simpa using h
      obtain ⟨n, hn, rfl⟩ := readToken_eq_ok hrest hread
      have hne : c.skipBlank.rest ≠ [] := by
        rw [hrest]
        exact List.cons_ne_nil _ _
      have hblank : c.LeadsTo c.skipBlank := (Cursor.LeadsTo.refl c).skipBlank
      exact ⟨hblank.marks ⟨n, rfl⟩, Cursor.offset_lt_move hne hn, rfl, hblank.move n⟩
    · exact nomatch h

theorem next?_eq_error {c : Cursor} {p : Problem} (h : next? c = .error p) : p.Lies c := by
  unfold next? at h
  dsimp only at h
  split at h
  · exact nomatch h
  · next x rest hrest =>
    split at h
    · exact nomatch h
    · next q hread =>
      obtain rfl := Except.error.inj h
      exact (readToken_eq_error hrest hread).behind (Cursor.LeadsTo.refl c).skipBlank

end Lexeme

/-- What ends the tokens of an expression lies between places from a cursor on. -/
def Ending.Lies (c : Cursor) : Ending → Prop
  | .endOfText => True
  | .closer l => c.Marks l.start l.stop
  | .failure p => p.Lies c

theorem Ending.Lies.behind {b c : Cursor} {ending : Ending} (h : ending.Lies c) (hb : b.LeadsTo c) :
    ending.Lies b := by
  cases ending with
  | endOfText => exact trivial
  | closer l => exact Cursor.Marks.behind h hb
  | failure p => exact Problem.Lies.behind h hb

/-- The tokens of an expression come one after the other, between places from a cursor on. -/
structure TokenRun.Placed (c : Cursor) (run : TokenRun) : Prop where
  sorted : run.lexemes.Pairwise fun l l' => l.stop ≤ l'.start
  inside : ∀ l ∈ run.lexemes, c.Marks l.start l.stop ∧ l.start < l.stop
  ending : run.ending.Lies c

theorem TokenRun.placed_nil {c : Cursor} {ending : Ending} (h : ending.Lies c) :
    Placed c ⟨[], ending⟩ :=
  ⟨List.Pairwise.nil, fun _ hl => (nomatch hl), h⟩

theorem Lexeme.placed_runFrom (bound depth : Nat) (c : Cursor) :
    (runFrom bound depth c).Placed c := by
  induction bound generalizing depth c with
  | zero => exact TokenRun.placed_nil trivial
  | succ bound ih =>
    unfold runFrom
    split
    · next p hnext => exact TokenRun.placed_nil (next?_eq_error hnext)
    · exact TokenRun.placed_nil trivial
    · next l after hnext =>
      obtain ⟨hmarks, hlonger, hstop, hafter⟩ := next?_eq_ok hnext
      -- whatever the token does to the brackets that are open, reading goes on behind it
      have hcontinue : ∀ depth, TokenRun.Placed c
          { runFrom bound depth after with
            lexemes := ⟨l.token.recognise, l.start, l.stop⟩ ::
              (runFrom bound depth after).lexemes } := by
        intro depth
        obtain ⟨hsorted, hinside, hending⟩ := ih depth after
        refine ⟨List.Pairwise.cons (fun l' hl' => ?_) hsorted, fun l' hl' => ?_,
          hending.behind hafter⟩
        · exact hstop ▸ (hinside l' hl').1.first.le
        · rcases List.mem_cons.1 hl' with rfl | hl'
          · exact ⟨hmarks, hlonger⟩
          · exact ⟨(hinside l' hl').1.behind hafter, (hinside l' hl').2⟩
      dsimp only
      split
      · split
        · exact hcontinue _
        · split
          · split
            · exact TokenRun.placed_nil hmarks
            · exact hcontinue _
          · exact hcontinue _
      · exact hcontinue _

/-! ### Expressions -/

/-- Everything in an expression lies between places from a cursor on. -/
def Expr.Marked (c : Cursor) (e : Expr) : Prop :=
  ∀ x ∈ e.subterms, c.Marks x.start x.stop

theorem Expr.Marked.self {c : Cursor} {e : Expr} (h : e.Marked c) : c.Marks e.start e.stop :=
  h e e.mem_subterms_self

theorem Expr.Marked.behind {b c : Cursor} {e : Expr} (h : e.Marked c) (hb : b.LeadsTo c) :
    e.Marked b :=
  fun x hx => (h x hx).behind hb

theorem Expr.marked_of_parts {c : Cursor} {e : Expr} (h : c.Marks e.start e.stop)
    (hparts : ∀ x ∈ e.parts, x.Marked c) : e.Marked c := by
  intro x hx
  rw [subterms_eq] at hx
  rcases List.mem_cons.1 hx with rfl | hx
  · exact h
  · obtain ⟨y, hy, hx⟩ := List.mem_flatMap.1 hx
    exact hparts y hy x hx

namespace Reading

/-- The tokens that are still to be read come one after the other, behind those that were read, all
between places from a cursor on.  As long as no token was read, there is one. -/
structure Within (c : Cursor) (r : Reading) : Prop where
  sorted : r.rest.Pairwise fun l l' => l.stop ≤ l'.start
  inside : ∀ l ∈ r.rest, c.Marks l.start l.stop ∧ l.start < l.stop
  behind : ∀ l ∈ r.rest, r.last ≤ l.start
  last : c.Meets r.last ∨ r.last = 0 ∧ r.rest ≠ []

/-- A place lies in front of the end of the last token that was read. -/
def Passed (c : Cursor) (offset : Nat) (r : Reading) : Prop :=
  c.Meets offset ∧ offset < r.last

variable {c : Cursor} {offset : Nat} {r r' : Reading}

theorem Passed.mono (h : r.Passed c offset) (hlast : r.last ≤ r'.last) : r'.Passed c offset :=
  ⟨h.1, Nat.lt_of_lt_of_le h.2 hlast⟩

theorem Within.meets_last (h : r.Within c) (hpos : 0 < r.last) : c.Meets r.last :=
  h.last.resolve_right fun hnone => Nat.ne_of_gt hpos hnone.1

/-- From a place up to the end of the last token that was read. -/
theorem Within.marks (h : r.Within c) (hoffset : r.Passed c offset) : c.Marks offset r.last :=
  ⟨Nat.le_of_lt hoffset.2, hoffset.1, h.meets_last (Nat.zero_lt_of_lt hoffset.2)⟩

end Reading

/-- What was read is an expression that starts in front of the end of the last token, and ends
behind `low`. -/
structure Begins (c : Cursor) (low : Nat) (e : Expr) (r : Reading) : Prop where
  marked : e.Marked c
  passed : r.Passed c e.start
  longer : low < e.stop

theorem Begins.mono {c : Cursor} {low low' : Nat} {e : Expr} {r r' : Reading} (h : Begins c low e r)
    (hlow : low' ≤ low) (hlast : r.last ≤ r'.last) : Begins c low' e r' :=
  ⟨h.marked, h.passed.mono hlast, Nat.lt_of_le_of_lt hlow h.longer⟩

/-- An expression that ends with the last token that was read. -/
theorem begins_of_parts {c : Cursor} {low : Nat} {e : Expr} {r : Reading} (hr : r.Within c)
    (hstart : r.Passed c e.start) (hstop : e.stop = r.last) (hlow : low < r.last)
    (hparts : ∀ x ∈ e.parts, x.Marked c) : Begins c low e r :=
  ⟨Expr.marked_of_parts (hstop ▸ hr.marks hstart) hparts, hstart, hstop ▸ hlow⟩

/-- Reading goes on behind the tokens that were read before, and gives what has a property; a
problem is one of the text. -/
structure Reads {α : Type} (c : Cursor) (last : Nat) (P : α → Reading → Prop)
    (x : Except Problem (α × Reading)) : Prop where
  ok : ∀ a r, x = .ok (a, r) → r.Within c ∧ last ≤ r.last ∧ P a r
  error : ∀ p, x = .error p → p.Lies c

/-- The same for a reader that gives nothing but what is left. -/
structure Skips (c : Cursor) (last : Nat) (P : Reading → Prop) (x : Except Problem Reading) :
    Prop where
  ok : ∀ r, x = .ok r → r.Within c ∧ last ≤ r.last ∧ P r
  error : ∀ p, x = .error p → p.Lies c

section Reads

variable {α β : Type} {c : Cursor} {low last : Nat} {P : α → Reading → Prop}
  {Q : β → Reading → Prop} {S : Reading → Prop} {r : Reading} {ending : Ending}

theorem reads_error {p : Problem} (h : p.Lies c) : Reads c last P (.error p) :=
  ⟨fun _ _ heq => (nomatch heq), fun _ heq => Except.error.inj heq ▸ h⟩

theorem skips_error {p : Problem} (h : p.Lies c) : Skips c last S (.error p) :=
  ⟨fun _ heq => (nomatch heq), fun _ heq => Except.error.inj heq ▸ h⟩

theorem reads_ok {a : α} (hr : r.Within c) (ha : P a r) : Reads c r.last P (.ok (a, r)) := by
  refine ⟨fun a' r' h => ?_, fun _ heq => (nomatch heq)⟩
  obtain ⟨rfl, rfl⟩ := Prod.mk.inj (Except.ok.inj h)
  exact ⟨hr, Nat.le_refl _, ha⟩

theorem Reads.bind {x : Except Problem (α × Reading)}
    {f : α × Reading → Except Problem (β × Reading)} (hx : Reads c last P x)
    (hf : ∀ a r, r.Within c → last ≤ r.last → P a r → Reads c r.last Q (f (a, r))) :
    Reads c last Q (x >>= f) := by
  cases x with
  | error p => exact reads_error (hx.error p rfl)
  | ok found =>
    obtain ⟨a, r⟩ := found
    obtain ⟨hr, hlast, ha⟩ := hx.ok a r rfl
    have hrest := hf a r hr hlast ha
    refine ⟨fun b r' h => ?_, hrest.error⟩
    obtain ⟨hr', hlast', hb⟩ := hrest.ok b r' h
    exact ⟨hr', Nat.le_trans hlast hlast', hb⟩

theorem Skips.bind {x : Except Problem Reading} {f : Reading → Except Problem (β × Reading)}
    (hx : Skips c last S x)
    (hf : ∀ r, r.Within c → last ≤ r.last → S r → Reads c r.last Q (f r)) :
    Reads c last Q (x >>= f) := by
  cases x with
  | error p => exact reads_error (hx.error p rfl)
  | ok r =>
    obtain ⟨hr, hlast, hS⟩ := hx.ok r rfl
    have hrest := hf r hr hlast hS
    refine ⟨fun b r' h => ?_, hrest.error⟩
    obtain ⟨hr', hlast', hb⟩ := hrest.ok b r' h
    exact ⟨hr', Nat.le_trans hlast hlast', hb⟩

/-- What is made of an expression without reading on. -/
theorem reads_made {x : Except Problem Expr} (hr : r.Within c)
    (hx : ∀ e, x = .ok e → Begins c low e r) (hproblem : ∀ p, x = .error p → p.Lies c) :
    Reads c r.last (Begins c low) (x >>= fun e => pure (e, r)) := by
  cases x with
  | error p => exact reads_error (hproblem p rfl)
  | ok made => exact reads_ok hr (hx made rfl)

theorem lies_unexpected (hr : r.Within c) (hending : ending.Lies c) :
    (r.unexpected ending).Lies c := by
  unfold Reading.unexpected
  split
  · next l rest hrest =>
    have hl : l ∈ r.rest := hrest ▸ List.mem_cons_self
    exact Problem.lies_of_marks (hr.inside l hl).1
  · next hnil =>
    split
    · exact Problem.lies_of_marks hending
    · rcases hr.last with hlast | ⟨-, hmore⟩
      · exact Problem.lies_of_marks ⟨Nat.le_refl _, hlast, hlast⟩
      · exact absurd hnil hmore
    · exact hending

theorem reads_unexpected (hr : r.Within c) (hending : ending.Lies c) :
    Reads c last P (.error (r.unexpected ending)) :=
  reads_error (lies_unexpected hr hending)

theorem checked_eq_ok {r' : Reading} (h : r.checked ending = .ok r') : r' = r := by
  unfold Reading.checked at h
  split at h
  · exact nomatch h
  · exact (Except.ok.inj h).symm

theorem checked_eq_error {p : Problem} (hending : ending.Lies c) (h : r.checked ending = .error p) :
    p.Lies c := by
  unfold Reading.checked at h
  split at h
  · exact Except.error.inj h ▸ hending
  · exact nomatch h

/-- The next token is taken: it starts behind what was read before. -/
theorem skips_take (hending : ending.Lies c) (hr : r.Within c) :
    Skips c r.last (fun r' => r'.Passed c r.here ∧ r.last < r'.last) (r.take ending) := by
  unfold Reading.take
  split
  · next l rest hrest =>
    refine ⟨fun r' h => ?_, fun p h => checked_eq_error hending h⟩
    obtain rfl := checked_eq_ok h
    have hl : l ∈ r.rest := hrest ▸ List.mem_cons_self
    obtain ⟨hmarks, hlonger⟩ := hr.inside l hl
    have hhere : r.here = l.start := by
      unfold Reading.here
      rw [hrest]
    have hsub : ∀ l' ∈ rest, l' ∈ r.rest := fun l' hl' => hrest ▸ List.mem_cons_of_mem _ hl'
    have hlast : r.last < l.stop := Nat.lt_of_le_of_lt (hr.behind l hl) hlonger
    obtain ⟨hfirst, hsorted⟩ := List.pairwise_cons.1 (hrest ▸ hr.sorted)
    refine ⟨⟨hsorted, fun l' hl' => hr.inside l' (hsub l' hl'), hfirst, .inl hmarks.last⟩,
      Nat.le_of_lt hlast, ?_, hlast⟩
    exact ⟨hhere ▸ hmarks.first, hhere ▸ hlonger⟩
  · exact skips_error (lies_unexpected hr hending)

theorem skips_expect (hending : ending.Lies c) (p : Punct) (hr : r.Within c) :
    Skips c r.last (fun r' => r'.Passed c r.here ∧ r.last < r'.last) (r.expect ending p) := by
  unfold Reading.expect
  split
  · exact skips_take hending hr
  · exact skips_error (lies_unexpected hr hending)

theorem skips_require (hending : ending.Lies c) (p : Token → Bool) (hr : r.Within c) :
    Skips c r.last (fun r' => r' = r) (r.require ending p) := by
  have hstay : Skips c r.last (fun r' => r' = r) (.ok r) := by
    refine ⟨fun r' h => ?_, fun _ h => (nomatch h)⟩
    obtain rfl := Except.ok.inj h
    exact ⟨hr, Nat.le_refl _, rfl⟩
  unfold Reading.require
  split
  · exact hstay
  · split
    · exact hstay
    · exact skips_error (lies_unexpected hr hending)

theorem reads_readName (hending : ending.Lies c) (hr : r.Within c) :
    Reads c r.last (fun _ r' => r.last < r'.last) (readName ending r) := by
  unfold readName
  split
  · have htake := skips_take hending hr
    cases hresult : r.take ending with
    | error p => exact reads_error (htake.error p hresult)
    | ok r₁ =>
      obtain ⟨hr₁, hlast, -, hlonger⟩ := htake.ok r₁ hresult
      refine ⟨fun name r' h => ?_, fun _ h => (nomatch h)⟩
      obtain ⟨-, rfl⟩ := Prod.mk.inj (Except.ok.inj h)
      exact ⟨hr₁, hlast, hlonger⟩
  · exact reads_unexpected hr hending

end Reads

/-- Two operands joined by an operator reach from the first to the second. -/
theorem Connective.begins_join {c : Cursor} {low low' : Nat} {left right : Expr} {r r' : Reading}
    (op : Connective) (hleft : Begins c low left r) (hright : Begins c low' right r')
    (hlast : r.last ≤ low') (hr : r.last ≤ r'.last) (hlow : low ≤ low') :
    Begins c low (op.join left right) r' := by
  have hmarks : c.Marks left.start right.stop :=
    ⟨Nat.le_of_lt (Nat.lt_trans (Nat.lt_of_lt_of_le hleft.passed.2 hlast) hright.longer),
      hleft.passed.1, hright.marked.self.last⟩
  have hparts : ∀ x ∈ [left, right], x.Marked c := by
    intro x hx
    rcases List.mem_cons.1 hx with rfl | hx
    · exact hleft.marked
    · exact List.mem_singleton.1 hx ▸ hright.marked
  have hlonger : low < right.stop := Nat.lt_of_le_of_lt hlow hright.longer
  cases op with
  | binary op => exact ⟨Expr.marked_of_parts hmarks hparts, hleft.passed.mono hr, hlonger⟩
  | logical op => exact ⟨Expr.marked_of_parts hmarks hparts, hleft.passed.mono hr, hlonger⟩

theorem Expr.begins_of_ofUpdate {c : Cursor} {low low' : Nat} {op : UpdateOp} {leading : Bool}
    {argument e : Expr} {start : Nat} {r r' : Reading} (hr : r.Within c) (hstart : r.Passed c start)
    (hlow : low < r.last) (hargument : Begins c low' argument r')
    (h : Expr.ofUpdate op leading argument ⟨start, r.last⟩ = .ok e) : Begins c low e r := by
  unfold Expr.ofUpdate at h
  split at h
  · obtain rfl := Except.ok.inj h
    exact begins_of_parts hr hstart rfl hlow fun x hx => List.mem_singleton.1 hx ▸ hargument.marked
  · exact nomatch h

theorem Expr.ofUpdate_eq_error {c : Cursor} {op : UpdateOp} {leading : Bool} {argument : Expr}
    {span : Span} {p : Problem} (hargument : argument.Marked c)
    (h : Expr.ofUpdate op leading argument span = .error p) : p.Lies c := by
  unfold Expr.ofUpdate at h
  split at h
  · exact nomatch h
  · obtain rfl := Except.error.inj h
    exact Problem.lies_of_marks hargument.self

theorem Expr.begins_of_ofAssignment {c : Cursor} {low low' : Nat} {op : AssignOp}
    {target value e : Expr}
    {r r' : Reading} (htarget : Begins c low target r) (hvalue : Begins c low' value r')
    (hlast : r.last ≤ low') (hr : r.last ≤ r'.last) (hlow : low ≤ low')
    (h : Expr.ofAssignment op target value = .ok e) : Begins c low e r' := by
  unfold Expr.ofAssignment at h
  split at h
  · obtain rfl := Except.ok.inj h
    refine ⟨Expr.marked_of_parts ?_ fun x hx => ?_, htarget.passed.mono hr,
      Nat.lt_of_le_of_lt hlow hvalue.longer⟩
    · exact ⟨Nat.le_of_lt (Nat.lt_trans (Nat.lt_of_lt_of_le htarget.passed.2 hlast) hvalue.longer),
        htarget.passed.1, hvalue.marked.self.last⟩
    · rcases List.mem_cons.1 hx with rfl | hx
      · exact htarget.marked
      · exact List.mem_singleton.1 hx ▸ hvalue.marked
  · exact nomatch h

theorem Expr.ofAssignment_eq_error {c : Cursor} {op : AssignOp} {target value : Expr} {p : Problem}
    (htarget : target.Marked c) (h : Expr.ofAssignment op target value = .error p) : p.Lies c := by
  unfold Expr.ofAssignment at h
  split at h
  · exact nomatch h
  · obtain rfl := Except.error.inj h
    exact Problem.lies_of_marks htarget.self

/-- The claims about the readers of the grammar, for a bound on the depth. -/
structure Readers (c : Cursor) (ending : Ending) (n : Nat) : Prop where
  expression : ∀ {r : Reading}, r.Within c →
    Reads c r.last (Begins c r.last) (readExpression ending n r)
  others : ∀ {r : Reading}, r.Within c →
    Reads c r.last (fun es r' => ∀ e ∈ es, Begins c r.last e r') (readOthers ending n r)
  assignment : ∀ {r : Reading}, r.Within c →
    Reads c r.last (Begins c r.last) (readAssignment ending n r)
  level : ∀ {r : Reading} (level : Nat), r.Within c →
    Reads c r.last (Begins c r.last) (readLevel ending n level r)
  joined : ∀ {r : Reading} {low : Nat} (level : Nat) {left : Expr}, r.Within c → low ≤ r.last →
    Begins c low left r → Reads c r.last (Begins c low) (readJoined ending n level left r)
  power : ∀ {r : Reading}, r.Within c → Reads c r.last (Begins c r.last) (readPower ending n r)
  unary : ∀ {r : Reading}, r.Within c → Reads c r.last (Begins c r.last) (readUnary ending n r)
  updated : ∀ {r : Reading}, r.Within c → Reads c r.last (Begins c r.last) (readUpdated ending n r)
  links : ∀ {r : Reading} {low start : Nat} {e : Expr} (cut : Bool), r.Within c → low < r.last →
    r.Passed c start → Begins c low e r →
    Reads c r.last (Begins c low) (readLinks ending n start e cut r)
  primary : ∀ {r : Reading}, r.Within c →
    Reads c r.last (fun e r' => Begins c r.last e r' ∧ r'.Passed c r.here ∧ r.last < r'.last)
      (readPrimary ending n r)
  elements : ∀ {r : Reading}, r.Within c →
    Reads c r.last (fun es _ => ∀ x ∈ es.map Element.expr, x.Marked c) (readElements ending n r)
  element : ∀ {r : Reading}, r.Within c →
    Reads c r.last (fun x _ => x.expr.Marked c) (readElement ending n r)
  members : ∀ {r : Reading}, r.Within c →
    Reads c r.last (fun ms _ => ∀ x ∈ ms.flatMap Member.exprs, x.Marked c) (readMembers ending n r)
  member : ∀ {r : Reading}, r.Within c →
    Reads c r.last (fun m _ => ∀ x ∈ m.exprs, x.Marked c) (readMember ending n r)
  value : ∀ {r : Reading} (key : Key), r.Within c → (∀ x ∈ key.exprs, x.Marked c) →
    Reads c r.last (fun m _ => ∀ x ∈ m.exprs, x.Marked c) (readValue ending n key r)

namespace Readers

variable {c : Cursor} {n : Nat} {ending : Ending} {r : Reading}

theorem expression_succ (h : Readers c ending n) (hr : r.Within c) :
    Reads c r.last (Begins c r.last) (readExpression ending (n + 1) r) := by
  unfold readExpression
  refine (h.assignment hr).bind fun first r₁ h₁ hlast₁ hfirst => ?_
  refine (h.others h₁).bind fun others r₂ h₂ hlast₂ hothers => ?_
  dsimp only
  split
  · exact reads_ok h₂ (hfirst.mono (Nat.le_refl _) hlast₂)
  · next final hfinal =>
    have hlater := hothers final (List.mem_of_getLast? hfinal)
    refine reads_ok h₂ ⟨Expr.marked_of_parts ?_ fun x hx => ?_, hfirst.passed.mono hlast₂,
      Nat.lt_of_le_of_lt hlast₁ hlater.longer⟩
    · exact ⟨Nat.le_of_lt (Nat.lt_trans hfirst.passed.2 hlater.longer), hfirst.passed.1,
        hlater.marked.self.last⟩
    · rcases List.mem_cons.1 hx with rfl | hx
      · exact hfirst.marked
      · exact (hothers x hx).marked

theorem others_succ (hending : ending.Lies c) (h : Readers c ending n) (hr : r.Within c) :
    Reads c r.last (fun es r' => ∀ e ∈ es, Begins c r.last e r') (readOthers ending (n + 1) r) := by
  unfold readOthers
  split
  · refine (skips_take hending hr).bind fun r₁ h₁ hlast₁ _ => ?_
    refine (h.assignment h₁).bind fun e r₂ h₂ hlast₂ he => ?_
    refine (h.others h₂).bind fun others r₃ h₃ hlast₃ hothers => reads_ok h₃ fun x hx => ?_
    rcases List.mem_cons.1 hx with rfl | hx
    · exact he.mono hlast₁ hlast₃
    · exact (hothers x hx).mono (Nat.le_trans hlast₁ hlast₂) (Nat.le_refl _)
  · exact reads_ok hr fun x hx => nomatch hx

theorem assignment_succ (hending : ending.Lies c) (h : Readers c ending n) (hr : r.Within c) :
    Reads c r.last (Begins c r.last) (readAssignment ending (n + 1) r) := by
  unfold readAssignment
  -- an assignment, a conditional, or neither
  refine (h.level 0 hr).bind fun left r₁ h₁ hlast₁ hleft => ?_
  dsimp only
  split
  · refine (skips_take hending h₁).bind fun r₂ h₂ hlast₂ _ => ?_
    refine (h.assignment h₂).bind fun value r₃ h₃ hlast₃ hvalue => ?_
    refine reads_made h₃ (fun e he => ?_) fun p hp => Expr.ofAssignment_eq_error hleft.marked hp
    exact Expr.begins_of_ofAssignment hleft hvalue hlast₂ (Nat.le_trans hlast₂ hlast₃)
      (Nat.le_trans hlast₁ hlast₂) he
  · split
    · refine (skips_take hending h₁).bind fun r₂ h₂ hlast₂ _ => ?_
      refine (h.assignment h₂).bind fun consequent r₃ h₃ hlast₃ hconsequent => ?_
      refine (skips_expect hending .colon h₃).bind fun r₄ h₄ hlast₄ _ => ?_
      refine (h.assignment h₄).bind fun alternate r₅ h₅ hlast₅ halternate => ?_
      -- the right operand ends behind the left one
      have hbefore : r₁.last ≤ r₄.last := Nat.le_trans hlast₂ (Nat.le_trans hlast₃ hlast₄)
      refine reads_ok h₅ ⟨Expr.marked_of_parts ?_ fun x hx => ?_,
        hleft.passed.mono (Nat.le_trans hbefore hlast₅),
        Nat.lt_of_le_of_lt (Nat.le_trans hlast₁ hbefore) halternate.longer⟩
      · exact ⟨Nat.le_of_lt (Nat.lt_trans (Nat.lt_of_lt_of_le hleft.passed.2 hbefore)
          halternate.longer), hleft.passed.1, halternate.marked.self.last⟩
      · simp only [Expr.parts, List.mem_cons, List.not_mem_nil, or_false] at hx
        rcases hx with rfl | rfl | rfl
        · exact hleft.marked
        · exact hconsequent.marked
        · exact halternate.marked
    · exact reads_ok h₁ hleft

theorem level_succ (h : Readers c ending n) (level : Nat) (hr : r.Within c) :
    Reads c r.last (Begins c r.last) (readLevel ending (n + 1) level r) := by
  unfold readLevel
  split
  · refine (h.level (level + 1) hr).bind fun left r₁ h₁ hlast₁ hleft => ?_
    exact h.joined level h₁ hlast₁ hleft
  · exact h.power hr

theorem joined_succ (hending : ending.Lies c) (h : Readers c ending n) {low : Nat} (level : Nat)
    {left : Expr} (hr : r.Within c) (hlow : low ≤ r.last) (hleft : Begins c low left r) :
    Reads c r.last (Begins c low) (readJoined ending (n + 1) level left r) := by
  unfold readJoined
  split
  · next op _ =>
    refine (skips_take hending hr).bind fun r₁ h₁ hlast₁ _ => ?_
    refine (h.level (level + 1) h₁).bind fun right r₂ h₂ hlast₂ hright => ?_
    have hbehind : r.last ≤ r₂.last := Nat.le_trans hlast₁ hlast₂
    exact h.joined level h₂ (Nat.le_trans hlow hbehind)
      (op.begins_join hleft hright hlast₁ hbehind (Nat.le_trans hlow hlast₁))
  · exact reads_ok hr hleft

theorem power_succ (hending : ending.Lies c) (h : Readers c ending n) (hr : r.Within c) :
    Reads c r.last (Begins c r.last) (readPower ending (n + 1) r) := by
  unfold readPower
  refine (h.unary hr).bind fun left r₁ h₁ hlast₁ hleft => ?_
  refine (skips_require hending Token.endsUpdated h₁).bind fun r₂ h₂ hlast₂ _ => ?_
  dsimp only
  split
  · refine (skips_take hending h₂).bind fun r₃ h₃ hlast₃ _ => ?_
    refine (h.power h₃).bind fun right r₄ h₄ hlast₄ hright => ?_
    have hbefore : r₁.last ≤ r₃.last := Nat.le_trans hlast₂ hlast₃
    exact reads_ok h₄ (Connective.begins_join _ hleft hright hbefore (Nat.le_trans hbefore hlast₄)
      (Nat.le_trans hlast₁ hbefore))
  · exact reads_ok h₂ (hleft.mono (Nat.le_refl _) hlast₂)

theorem unary_succ (hending : ending.Lies c) (h : Readers c ending n) (hr : r.Within c) :
    Reads c r.last (Begins c r.last) (readUnary ending (n + 1) r) := by
  unfold readUnary
  dsimp only
  split
  · refine (skips_take hending hr).bind fun r₁ h₁ hlast₁ ⟨hhere, _⟩ => ?_
    refine (h.unary h₁).bind fun argument r₂ h₂ hlast₂ hargument => reads_ok h₂ ?_
    refine ⟨Expr.marked_of_parts ?_ fun x hx => List.mem_singleton.1 hx ▸ hargument.marked,
      hhere.mono hlast₂, Nat.lt_of_le_of_lt hlast₁ hargument.longer⟩
    exact ⟨Nat.le_of_lt (Nat.lt_trans hhere.2 hargument.longer), hhere.1,
      hargument.marked.self.last⟩
  · refine (skips_take hending hr).bind fun r₁ h₁ hlast₁ ⟨hhere, hlonger⟩ => ?_
    refine (h.unary h₁).bind fun argument r₂ h₂ hlast₂ hargument => ?_
    refine reads_made h₂ (fun e he => ?_) fun p hp => Expr.ofUpdate_eq_error hargument.marked hp
    exact Expr.begins_of_ofUpdate h₂ (hhere.mono hlast₂) (Nat.lt_of_lt_of_le hlonger hlast₂)
      hargument he
  · exact h.updated hr

theorem updated_succ (hending : ending.Lies c) (h : Readers c ending n) (hr : r.Within c) :
    Reads c r.last (Begins c r.last) (readUpdated ending (n + 1) r) := by
  unfold readUpdated
  dsimp only
  refine (h.primary hr).bind fun primary r₁ h₁ hlast₁ ⟨hprimary, hhere, hlonger⟩ => ?_
  refine (h.links false h₁ hlonger hhere hprimary).bind fun operand r₂ h₂ hlast₂ hoperand => ?_
  dsimp only
  split
  · refine (skips_take hending h₂).bind fun r₃ h₃ hlast₃ _ => ?_
    refine (skips_require hending Token.endsUpdated h₃).bind fun r₄ h₄ hlast₄ _ => ?_
    have hbehind : r₂.last ≤ r₄.last := Nat.le_trans hlast₃ hlast₄
    refine reads_made h₄ (fun e he => ?_) fun p hp => Expr.ofUpdate_eq_error hoperand.marked hp
    exact Expr.begins_of_ofUpdate h₄ (hoperand.passed.mono hbehind)
      (Nat.lt_of_lt_of_le hlonger (Nat.le_trans hlast₂ hbehind)) hoperand he
  · exact reads_ok h₂ hoperand

/-- A link starts where its chain does. -/
theorem links_succ (hending : ending.Lies c) (h : Readers c ending n) {low start : Nat} {e : Expr}
    (cut : Bool)
    (hr : r.Within c) (hlow : low < r.last) (hstart : r.Passed c start) (he : Begins c low e r) :
    Reads c r.last (Begins c low) (readLinks ending (n + 1) start e cut r) := by
  -- the links differ in what stands behind their mark
  have hnext : ∀ (cut : Bool) {r₁ : Reading} {link : Expr}, r₁.Within c → r.last ≤ r₁.last →
      link.span = ⟨start, r₁.last⟩ → (∀ x ∈ link.parts, x.Marked c) →
      Reads c r₁.last (Begins c low) (readLinks ending n start link cut r₁) := by
    intro cut r₁ link h₁ hlast₁ hspan hparts
    have hlow₁ : low < r₁.last := Nat.lt_of_lt_of_le hlow hlast₁
    have hstart₁ : r₁.Passed c start := hstart.mono hlast₁
    have hlink : r₁.Passed c link.start := by rwa [Expr.start, hspan]
    exact h.links cut h₁ hlow₁ hstart₁
      (begins_of_parts h₁ hlink (congrArg Span.stop hspan) hlow₁ hparts)
  have hname : ∀ (optional cut : Bool) {r₁ : Reading}, r₁.Within c → r.last ≤ r₁.last →
      Reads c r₁.last (Begins c low) (do
        let found ← readName ending r₁
        readLinks ending n start (.member ⟨start, found.2.last⟩ e (.named found.1) optional) cut
          found.2) := by
    intro optional cut r₁ h₁ hlast₁
    refine (reads_readName hending h₁).bind fun name r₂ h₂ hlast₂ _ => ?_
    exact hnext cut h₂ (Nat.le_trans hlast₁ hlast₂) rfl fun x hx =>
      List.mem_singleton.1 hx ▸ he.marked
  have hkey : ∀ (optional cut : Bool) {r₁ : Reading}, r₁.Within c → r.last ≤ r₁.last →
      Reads c r₁.last (Begins c low) (do
        let r ← r₁.take ending
        let key ← readExpression ending n r
        let r ← key.2.expect ending .rightBracket
        readLinks ending n start (.member ⟨start, r.last⟩ e (.computed key.1) optional) cut r) := by
    intro optional cut r₁ h₁ hlast₁
    refine (skips_take hending h₁).bind fun r₂ h₂ hlast₂ _ => ?_
    refine (h.expression h₂).bind fun key r₃ h₃ hlast₃ hkey => ?_
    refine (skips_expect hending .rightBracket h₃).bind fun r₄ h₄ hlast₄ _ => ?_
    refine hnext cut h₄ (by omega) rfl fun x hx => ?_
    rcases List.mem_cons.1 hx with rfl | hx
    · exact he.marked
    · exact List.mem_singleton.1 hx ▸ hkey.marked
  have hcall : ∀ (optional cut : Bool) {r₁ : Reading}, r₁.Within c → r.last ≤ r₁.last →
      Reads c r₁.last (Begins c low) (do
        let r ← r₁.take ending
        let arguments ← readElements ending n r
        let r ← arguments.2.expect ending .rightParen
        readLinks ending n start (.call ⟨start, r.last⟩ e arguments.1 optional) cut r) := by
    intro optional cut r₁ h₁ hlast₁
    refine (skips_take hending h₁).bind fun r₂ h₂ hlast₂ _ => ?_
    refine (h.elements h₂).bind fun arguments r₃ h₃ hlast₃ harguments => ?_
    refine (skips_expect hending .rightParen h₃).bind fun r₄ h₄ hlast₄ _ => ?_
    refine hnext cut h₄ (by omega) rfl fun x hx => ?_
    rcases List.mem_cons.1 hx with rfl | hx
    · exact he.marked
    · exact harguments x hx
  unfold readLinks
  split
  · exact (skips_take hending hr).bind fun r₁ h₁ hlast₁ _ => hname false cut h₁ hlast₁
  · exact hkey false cut hr (Nat.le_refl _)
  · exact hcall false cut hr (Nat.le_refl _)
  · refine (skips_take hending hr).bind fun r₁ h₁ hlast₁ _ => ?_
    split
    · exact hkey true true h₁ hlast₁
    · exact hcall true true h₁ hlast₁
    · exact hname true true h₁ hlast₁
  · refine (skips_require hending Token.endsOperand hr).bind fun r₁ h₁ hlast₁ _ => reads_ok h₁ ?_
    split
    · exact begins_of_parts h₁ (hstart.mono hlast₁) rfl (Nat.lt_of_lt_of_le hlow hlast₁)
        fun x hx => List.mem_singleton.1 hx ▸ he.marked
    · exact he.mono (Nat.le_refl _) hlast₁

theorem primary_succ (hending : ending.Lies c) (h : Readers c ending n) (hr : r.Within c) :
    Reads c r.last (fun e r' => Begins c r.last e r' ∧ r'.Passed c r.here ∧ r.last < r'.last)
      (readPrimary ending (n + 1) r) := by
  -- what reaches from the first token to the last one
  have hwhole : ∀ {r' : Reading} {e : Expr}, r'.Within c → r'.Passed c r.here → r.last < r'.last →
      e.span = ⟨r.here, r'.last⟩ → (∀ x ∈ e.parts, x.Marked c) →
      Begins c r.last e r' ∧ r'.Passed c r.here ∧ r.last < r'.last := by
    intro r' e hr' hhere hlonger hspan hparts
    have hstart : r'.Passed c e.start := by rwa [Expr.start, hspan]
    exact ⟨begins_of_parts hr' hstart (congrArg Span.stop hspan) hlonger hparts, hhere, hlonger⟩
  unfold readPrimary
  dsimp only
  split
  · exact (skips_take hending hr).bind fun r₁ h₁ _ ⟨hhere, hlonger⟩ =>
      reads_ok h₁ (hwhole h₁ hhere hlonger rfl fun x hx => nomatch hx)
  · refine (skips_take hending hr).bind fun r₁ h₁ hlast₁ ⟨hhere, hlonger⟩ => ?_
    refine (h.expression h₁).bind fun e r₂ h₂ hlast₂ he => ?_
    refine (skips_expect hending .rightParen h₂).bind fun r₃ h₃ hlast₃ _ => ?_
    have hbehind : r₁.last ≤ r₃.last := Nat.le_trans hlast₂ hlast₃
    exact reads_ok h₃ ⟨he.mono hlast₁ hlast₃, hhere.mono hbehind,
      Nat.lt_of_lt_of_le hlonger hbehind⟩
  · refine (skips_take hending hr).bind fun r₁ h₁ _ ⟨hhere, hlonger⟩ => ?_
    refine (h.elements h₁).bind fun elements r₂ h₂ hlast₂ helements => ?_
    refine (skips_expect hending .rightBracket h₂).bind fun r₃ h₃ hlast₃ _ => ?_
    have hbehind : r₁.last ≤ r₃.last := Nat.le_trans hlast₂ hlast₃
    exact reads_ok h₃ (hwhole h₃ (hhere.mono hbehind) (Nat.lt_of_lt_of_le hlonger hbehind) rfl
      helements)
  · refine (skips_take hending hr).bind fun r₁ h₁ _ ⟨hhere, hlonger⟩ => ?_
    refine (h.members h₁).bind fun members r₂ h₂ hlast₂ hmembers => ?_
    refine (skips_expect hending .rightBrace h₂).bind fun r₃ h₃ hlast₃ _ => ?_
    have hbehind : r₁.last ≤ r₃.last := Nat.le_trans hlast₂ hlast₃
    exact reads_ok h₃ (hwhole h₃ (hhere.mono hbehind) (Nat.lt_of_lt_of_le hlonger hbehind) rfl
      hmembers)
  · split
    · exact (skips_take hending hr).bind fun r₁ h₁ _ ⟨hhere, hlonger⟩ =>
        reads_ok h₁ (hwhole h₁ hhere hlonger rfl fun x hx => nomatch hx)
    · exact reads_unexpected hr hending
  · exact reads_unexpected hr hending

theorem elements_succ (hending : ending.Lies c) (h : Readers c ending n) (hr : r.Within c) :
    Reads c r.last (fun es _ => ∀ x ∈ es.map Element.expr, x.Marked c)
    (readElements ending (n + 1) r) := by
  unfold readElements
  split
  · exact reads_ok hr fun x hx => nomatch hx
  · refine (h.element hr).bind fun element r₁ h₁ _ helement => ?_
    dsimp only
    split
    · refine (skips_take hending h₁).bind fun r₂ h₂ _ _ => ?_
      refine (h.elements h₂).bind fun others r₃ h₃ _ hothers => reads_ok h₃ fun x hx => ?_
      rcases List.mem_cons.1 hx with rfl | hx
      · exact helement
      · exact hothers x hx
    · exact reads_ok h₁ fun x hx => List.mem_singleton.1 hx ▸ helement

theorem element_succ (hending : ending.Lies c) (h : Readers c ending n) (hr : r.Within c) :
    Reads c r.last (fun x _ => x.expr.Marked c) (readElement ending (n + 1) r) := by
  unfold readElement
  split
  · refine (skips_take hending hr).bind fun r₁ h₁ _ _ => ?_
    exact (h.assignment h₁).bind fun e r₂ h₂ _ he => reads_ok h₂ he.marked
  · exact (h.assignment hr).bind fun e r₁ h₁ _ he => reads_ok h₁ he.marked

theorem members_succ (hending : ending.Lies c) (h : Readers c ending n) (hr : r.Within c) :
    Reads c r.last (fun ms _ => ∀ x ∈ ms.flatMap Member.exprs, x.Marked c)
      (readMembers ending (n + 1) r) := by
  unfold readMembers
  split
  · exact reads_ok hr fun x hx => nomatch hx
  · refine (h.member hr).bind fun member r₁ h₁ _ hmember => ?_
    dsimp only
    split
    · refine (skips_take hending h₁).bind fun r₂ h₂ _ _ => ?_
      refine (h.members h₂).bind fun others r₃ h₃ _ hothers => reads_ok h₃ fun x hx => ?_
      rw [List.flatMap_cons] at hx
      rcases List.mem_append.1 hx with hx | hx
      · exact hmember x hx
      · exact hothers x hx
    · refine reads_ok h₁ fun x hx => hmember x ?_
      simpa using hx

theorem member_succ (hending : ending.Lies c) (h : Readers c ending n) (hr : r.Within c) :
    Reads c r.last (fun m _ => ∀ x ∈ m.exprs, x.Marked c) (readMember ending (n + 1) r) := by
  -- a key with a colon behind it marks nothing by itself
  have hvalue : ∀ name, Reads c r.last (fun m _ => ∀ x ∈ m.exprs, x.Marked c) (do
      let r ← r.take ending
      readValue ending n (.fixed name) r) :=
    fun name => (skips_take hending hr).bind fun r₁ h₁ _ _ =>
      h.value (.fixed name) h₁ fun x hx => nomatch hx
  unfold readMember
  dsimp only
  split
  · refine (skips_take hending hr).bind fun r₁ h₁ _ _ => ?_
    refine (h.assignment h₁).bind fun e r₂ h₂ _ he => reads_ok h₂ fun x hx => ?_
    exact List.mem_singleton.1 hx ▸ he.marked
  · refine (skips_take hending hr).bind fun r₁ h₁ _ ⟨hhere, _⟩ => ?_
    split
    · refine reads_ok h₁ fun x hx => ?_
      obtain rfl := List.mem_singleton.1 hx
      exact Expr.marked_of_parts (h₁.marks hhere) fun y hy => nomatch hy
    · exact h.value (.fixed _) h₁ fun x hx => nomatch hx
  · exact hvalue _
  · exact hvalue _
  · exact hvalue _
  · refine (skips_take hending hr).bind fun r₁ h₁ _ _ => ?_
    refine (h.assignment h₁).bind fun key r₂ h₂ _ hkey => ?_
    refine (skips_expect hending .rightBracket h₂).bind fun r₃ h₃ _ _ => ?_
    exact h.value (.computed key) h₃ fun x hx => List.mem_singleton.1 hx ▸ hkey.marked
  · exact reads_unexpected hr hending

theorem value_succ (hending : ending.Lies c) (h : Readers c ending n) (key : Key) (hr : r.Within c)
    (hkey : ∀ x ∈ key.exprs, x.Marked c) :
    Reads c r.last (fun m _ => ∀ x ∈ m.exprs, x.Marked c) (readValue ending (n + 1) key r) := by
  unfold readValue
  refine (skips_expect hending .colon hr).bind fun r₁ h₁ _ _ => ?_
  refine (h.assignment h₁).bind fun value r₂ h₂ _ hvalue => reads_ok h₂ fun x hx => ?_
  rcases List.mem_append.1 hx with hx | hx
  · exact hkey x hx
  · exact List.mem_singleton.1 hx ▸ hvalue.marked

end Readers

/-- All readers keep to their claims, by induction on the bound. -/
theorem readers {c : Cursor} {ending : Ending} (hending : ending.Lies c) (n : Nat) :
    Readers c ending n := by
  -- the induction is on the fuel, for all procedures at once, since each calls others
  induction n with
  | zero =>
    exact
      { expression := fun h => reads_unexpected h hending
        others := fun h => reads_unexpected h hending
        assignment := fun h => reads_unexpected h hending
        level := fun _ h => reads_unexpected h hending
        joined := fun _ _ h _ _ => reads_unexpected h hending
        power := fun h => reads_unexpected h hending
        unary := fun h => reads_unexpected h hending
        updated := fun h => reads_unexpected h hending
        links := fun _ h _ _ _ => reads_unexpected h hending
        primary := fun h => reads_unexpected h hending
        elements := fun h => reads_unexpected h hending
        element := fun h => reads_unexpected h hending
        members := fun h => reads_unexpected h hending
        member := fun h => reads_unexpected h hending
        value := fun _ h _ => reads_unexpected h hending }
  | succ n h =>
    exact
      { expression := h.expression_succ, others := h.others_succ hending
        assignment := h.assignment_succ hending, level := h.level_succ
        joined := fun level _ => h.joined_succ hending level, power := h.power_succ hending
        unary := h.unary_succ hending, updated := h.updated_succ hending
        links := h.links_succ hending
        primary := h.primary_succ hending, elements := h.elements_succ hending
        element := h.element_succ hending, members := h.members_succ hending
        member := h.member_succ hending, value := h.value_succ hending }

namespace Expr

variable {c : Cursor}

/-- An expression whose tokens lie between places does so itself, or the problem with it does. -/
theorem placed_read {run : TokenRun} (hrun : run.Placed c) (hmore : run.lexemes ≠ []) :
    (∀ e stop, read run = .ok (e, stop) → e.Marked c ∧ e.start < stop ∧ c.Meets stop) ∧
      ∀ p, read run = .error p → p.Lies c := by
  -- the run is a reading at its start, which has read nothing yet
  have hwithin : Reading.Within c ⟨run.lexemes, 0⟩ :=
    ⟨hrun.sorted, hrun.inside, fun _ _ => Nat.zero_le _, .inr ⟨rfl, hmore⟩⟩
  have hreads := (readers hrun.ending (20 * (run.lexemes.length + 2))).expression hwithin
  unfold read
  cases hchecked : Reading.checked run.ending ⟨run.lexemes, 0⟩ with
  | error p =>
    exact ⟨fun _ _ h => (nomatch h),
      fun q h => Except.error.inj h ▸ checked_eq_error hrun.ending hchecked⟩
  | ok r =>
    obtain rfl := checked_eq_ok hchecked
    dsimp only [bind, Except.bind]
    cases hread : readExpression run.ending (20 * (run.lexemes.length + 2)) ⟨run.lexemes, 0⟩ with
    | error p =>
      exact ⟨fun _ _ h => (nomatch h), fun q h => Except.error.inj h ▸ hreads.error p hread⟩
    | ok found =>
      obtain ⟨e, r⟩ := found
      obtain ⟨hr, -, he⟩ := hreads.ok e r hread
      dsimp only
      -- behind the expression something is left, which is out of place
      split
      · refine ⟨fun e' stop h => ?_, fun _ h => (nomatch h)⟩
        obtain ⟨rfl, rfl⟩ := Prod.mk.inj (Except.ok.inj h)
        exact ⟨he.marked, he.passed.2, (hr.marks he.passed).last⟩
      · exact ⟨fun _ _ h => (nomatch h),
          fun q h => Except.error.inj h ▸ lies_unexpected hr hrun.ending⟩

/-- Where there is no token there is no expression. -/
theorem read_nil (ending : Ending) :
    read ⟨[], ending⟩ = .error (Reading.unexpected ending ⟨[], 0⟩) := by
  cases ending <;> rfl

/-- An expression that is embedded in a text lies behind the cursor, and in front of its end. -/
theorem readEmbedded_eq_ok {e : Expr} {stop : Nat} (h : readEmbedded c = .ok (e, stop)) :
    e.Marked c ∧ e.start < stop ∧ c.Meets stop := by
  refine (placed_read (Lexeme.placed_runFrom _ _ c) fun hnil => ?_).1 e stop h
  have hrun : Lexeme.run c = ⟨[], (Lexeme.run c).ending⟩ :=
    congrArg (TokenRun.mk · (Lexeme.run c).ending) hnil
  rw [readEmbedded, hrun, read_nil] at h
  exact nomatch h

/-- The problem with an expression that is embedded in a text lies behind the cursor, unless there
was nothing to be read. -/
theorem lies_of_readEmbedded {p : Problem} (h : readEmbedded c = .error p) :
    p.Lies c ∨ Lexeme.run c = ⟨[], .endOfText⟩ ∧ p = ⟨.unexpectedEnd, 0, 0, none, none⟩ := by
  have hplaced : (Lexeme.run c).Placed c := Lexeme.placed_runFrom _ _ c
  rw [readEmbedded] at h
  rcases hrun : Lexeme.run c with ⟨_ | ⟨l, rest⟩, ending⟩
  · rw [hrun] at h hplaced
    rw [read_nil] at h
    obtain rfl := Except.error.inj h
    cases ending with
    | endOfText => exact .inr ⟨rfl, rfl⟩
    | closer l => exact .inl (Problem.lies_of_marks hplaced.ending)
    | failure p => exact .inl hplaced.ending
  · rw [hrun] at h hplaced
    exact .inl ((placed_read hplaced (List.cons_ne_nil l rest)).2 p h)

theorem readEmbedded_eq_error {p : Problem} (h : readEmbedded c = .error p) : p.Own c := by
  rcases lies_of_readEmbedded h with hp | ⟨-, rfl⟩
  · exact hp.own
  · exact ⟨.inr ⟨rfl, rfl⟩, rfl, rfl⟩

/-- The expression was read at a place from a cursor on. -/
def Embedded (c : Cursor) (e : Expr) : Prop :=
  ∃ d stop, c.LeadsTo d ∧ readEmbedded d = .ok (e, stop)

theorem Embedded.behind {b : Cursor} {e : Expr} (h : e.Embedded c) (hb : b.LeadsTo c) :
    e.Embedded b := by
  obtain ⟨d, stop, hd, hread⟩ := h
  exact ⟨d, stop, hb.trans hd, hread⟩

theorem Embedded.marked {e : Expr} (h : e.Embedded c) : e.Marked c := by
  obtain ⟨d, stop, hd, hread⟩ := h
  exact (readEmbedded_eq_ok hread).1.behind hd

end Expr

end PromptMarkup

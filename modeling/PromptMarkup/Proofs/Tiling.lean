/-
How tokens lie in the text they are read from.

* `Lexeme.scan` — all tokens from a cursor on, and why they end; `Lexeme.run_prefix_scan` says that
  the tokens of an expression are the first of them;
* `Lexeme.Tiles` — tokens that stand one after the other, with nothing but white space in front of
  each;
* `Lexeme.StandsAlone` — a token is all that is read of the text it takes up;
* `Lexeme.standsAlone_of_next?` — no token depends on what stands around it;
* `Lexeme.scan_tiles` — the tokens of a text tile it, up to its end or to the first problem.

Design notes: that a token is read again where the text is cut off behind it is what
`Lexeme.Reaches` says of one token.  Cut off right behind the token there is no other number that
the cut could fall into, so that nothing has to be said about the tokens that follow it.
-/
import PromptMarkup.Proofs.Endings
import PromptMarkup.Proofs.Layout

namespace PromptMarkup

open Text (Cursor byteLength allBlank slice?)

namespace Lexeme

variable {c d after : Cursor} {l : Lexeme} {s w : List Char}

/-! ### All tokens of a text -/

/-- The tokens from a cursor on, up to the end of the text or to a problem, whatever brackets they
open or close. -/
def scanFrom : (bound : Nat) → Cursor → TokenRun
  | 0, _ => ⟨[], .endOfText⟩
  | bound + 1, c =>
    match next? c with
    | .error p => ⟨[], .failure p⟩
    | .ok (none, _) => ⟨[], .endOfText⟩
    | .ok (some l, after) => ⟨l :: (scanFrom bound after).lexemes, (scanFrom bound after).ending⟩

/-- The tokens from a cursor on.  Every token takes at least one character, so the length of the
text bounds their number. -/
def scan (c : Cursor) : TokenRun :=
  scanFrom (c.rest.length + 1) c

theorem scanFrom_succ (h : next? c = .ok (some l, after)) (bound : Nat) :
    scanFrom (bound + 1) c = ⟨l :: (scanFrom bound after).lexemes,
      (scanFrom bound after).ending⟩ := by
  rw [scanFrom, h]

theorem scanFrom_of_error {p : Problem} (h : next? c = .error p) (bound : Nat) :
    scanFrom (bound + 1) c = ⟨[], .failure p⟩ := by
  rw [scanFrom, h]

theorem scanFrom_of_blank (h : allBlank c.rest = true) (bound : Nat) :
    scanFrom bound c = ⟨[], .endOfText⟩ := by
  cases bound with
  | zero => rfl
  | succ bound => rw [scanFrom, next?_eq_ok_none.2 ⟨Cursor.rest_skipBlank_eq_nil.2 h, rfl⟩]

theorem runFrom_prefix_scanFrom (bound depth : Nat) (c : Cursor) :
    (runFrom bound depth c).lexemes <+:
      (scanFrom bound c).lexemes.map fun l => ⟨l.token.recognise, l.start, l.stop⟩ := by
  induction bound generalizing depth c with
  | zero => exact List.prefix_rfl
  | succ bound ih =>
    cases hnext : next? c with
    | error p =>
      rw [runFrom, hnext]
      exact List.nil_prefix
    | ok found =>
      obtain ⟨_ | l, after⟩ := found
      · rw [runFrom, hnext]
        exact List.nil_prefix
      · rw [runFrom_succ hnext, scanFrom_succ hnext]
        -- a closing bracket ends the tokens of an expression, and no others
        split
        · exact List.nil_prefix
        · next depth _ => exact List.cons_prefix_cons.2 ⟨rfl, ih depth after⟩

/-- The tokens of an expression are the first tokens of the text, with keywords told from
identifiers. -/
theorem run_prefix_scan (c : Cursor) :
    (run c).lexemes <+: (scan c).lexemes.map fun l => ⟨l.token.recognise, l.start, l.stop⟩ :=
  runFrom_prefix_scanFrom _ 0 c

/-! ### One token -/

/-- The text of a token, and the white space in front of it. -/
theorem exists_text_of_next? (h : next? c = .ok (some l, after)) :
    ∃ blank w, allBlank blank = true ∧ w ≠ [] ∧ c.rest = blank ++ c.skipBlank.rest ∧
      c.skipBlank.rest = w ++ after.rest ∧ l.start = c.offset + byteLength blank ∧
      l.stop = l.start + byteLength w ∧ after.offset = l.stop := by
  obtain ⟨x, rest, token, hrest, hread, rfl⟩ := next?_eq_ok_some.1 h
  obtain ⟨n, rfl, hreaches⟩ := next?_reaches ((next?_skipBlank c).trans h)
  refine ⟨c.rest.takeWhile Text.isBlank, c.skipBlank.rest.take n, List.all_takeWhile, ?_, ?_, ?_,
    ?_, ?_, rfl⟩
  · intro hnil
    have hpos := hreaches.pos
    have hle := hreaches.length
    have hlength := congrArg List.length hnil
    rw [List.length_take, List.length_nil] at hlength
    omega
  · rw [Cursor.skipBlank, Cursor.rest_moveWhile, List.takeWhile_append_dropWhile]
  · rw [Cursor.rest_move, List.take_append_drop]
  · exact Cursor.offset_move_front (List.takeWhile_prefix _)
  · exact Cursor.offset_move n c.skipBlank

/-- A token is what is read first of its text, and nothing of that text is left. -/
theorem next?_ofText (h : next? c = .ok (some l, after)) (hw : c.skipBlank.rest = w ++ after.rest) :
    next? (.ofText w) = .ok (some ⟨l.token, 0, byteLength w⟩, (Cursor.ofText w).move w.length) := by
  obtain ⟨n, rfl, hreaches⟩ := next?_reaches ((next?_skipBlank c).trans h)
  have hle := hreaches.length
  have hn : n = w.length := by
    have hlength := congrArg List.length hw
    rw [List.length_append, Cursor.rest_move, List.length_drop] at hlength
    omega
  have hcopies : (Cursor.ofText w).Copies c.skipBlank.offset c.skipBlank :=
    ⟨⟨_, hw.symm⟩, (Nat.zero_add _).symm⟩
  have hcuts : Cuts n c.skipBlank.rest w := by
    refine ⟨⟨_, hw.symm⟩, Nat.le_of_eq hn, fun hne => absurd ?_ hne⟩
    rw [hn, List.drop_length]
  obtain ⟨⟨token, start, stop⟩, hnext, rfl⟩ := hreaches.again _ _ hcopies hcuts
  -- the offsets of the token count from the start of its text
  have hstart : start + c.skipBlank.offset = c.skipBlank.offset := start_of_next? h
  obtain rfl : start = 0 := by omega
  obtain ⟨x, rest, token', -, -, heq⟩ := next?_eq_ok_some.1 hnext
  have hstop : stop = 0 + byteLength (w.take n) :=
    (congrArg Lexeme.stop heq).trans (Cursor.offset_move n (Cursor.ofText w))
  rw [hn, List.take_length, Nat.zero_add] at hstop
  rw [hnext, hstop, hn]
  rfl

/-- The token is all that is read of the text that it takes up. -/
def StandsAlone (s : List Char) (l : Lexeme) : Prop :=
  ∃ w, slice? s l.start l.stop = some w ∧
    scan (.ofText w) = ⟨[⟨l.token, 0, byteLength w⟩], .endOfText⟩

/-- No token depends on the text around it. -/
theorem standsAlone_of_next? (hc : (Cursor.ofText s).LeadsTo c)
    (h : next? c = .ok (some l, after)) :
    l.StandsAlone s := by
  obtain ⟨blank, w, -, -, -, hw, -, hstop, -⟩ := exists_text_of_next? h
  refine ⟨w, ?_, ?_⟩
  · rw [hstop, start_of_next? h]
    exact Cursor.slice?_of_leadsTo hc.skipBlank hw
  · have hrest : ((Cursor.ofText w).move w.length).rest = [] := by
      rw [Cursor.rest_move]
      exact List.drop_length
    rw [scan, scanFrom_succ (next?_ofText h hw), scanFrom_of_blank (by rw [hrest]; rfl)]

/-! ### Tokens one after the other -/

/-- Tokens that stand between two offsets of a text one after the other: none of them is empty, and
in front of each there is nothing but white space. -/
inductive Tiles (s : List Char) : Nat → List Lexeme → Nat → Prop
  | nil (low : Nat) : Tiles s low [] low
  | cons {low high : Nat} {l : Lexeme} {ls : List Lexeme} {blank w : List Char}
    (gap : slice? s low l.start = some blank) (hblank : allBlank blank = true)
    (text : slice? s l.start l.stop = some w) (hw : w ≠ []) (others : Tiles s l.stop ls high) :
    Tiles s low (l :: ls) high

theorem le_of_slice? {low high : Nat} (h : slice? s low high = some w) : low ≤ high := by
  rw [slice?] at h
  split at h
  · cases h
  · omega

theorem lt_of_slice? {low high : Nat} (h : slice? s low high = some w) (hw : w ≠ []) :
    low < high := by
  refine Nat.lt_of_le_of_ne (le_of_slice? h) fun heq => hw ?_
  rw [slice?, heq, if_neg (Nat.lt_irrefl high), Nat.sub_self] at h
  cases hdrop : Text.dropBytes? high s with
  | none => rw [hdrop] at h; cases h
  | some rest => rw [hdrop] at h; cases rest <;> cases h <;> rfl

/-- Such tokens come one after the other, and none of them is empty. -/
theorem Tiles.spaced {low high : Nat} {ls : List Lexeme} (h : Tiles s low ls high) :
    low ≤ high ∧ Span.Spaced low (ls.map fun l => ⟨l.start, l.stop⟩) high := by
  induction h with
  | nil low => exact ⟨Nat.le_refl low, .nil⟩
  | @cons low high l ls blank w gap hblank text hw others ih =>
    obtain ⟨hle, hspaced⟩ := ih
    have hstart := le_of_slice? gap
    have hlt := lt_of_slice? text hw
    refine ⟨by omega, List.pairwise_cons.2
      ⟨fun t ht => (hspaced.within t ht).1, hspaced.apart⟩, fun t ht => ?_⟩
    rcases List.mem_cons.1 ht with rfl | ht
    · exact ⟨hstart, hlt, hle⟩
    · obtain ⟨hfront, hne, hback⟩ := hspaced.within t ht
      exact ⟨by omega, hne, hback⟩

/-- No token is read at a cursor: the text ends there, or what follows is the problem. -/
def Exhausted (d : Cursor) : Ending → Prop
  | .endOfText => allBlank d.rest = true
  | .failure p => next? d = .error p
  | .closer _ => False

theorem scanFrom_tiles {bound : Nat} (hc : (Cursor.ofText s).LeadsTo c)
    (hbound : c.rest.length < bound) :
    ∃ d, c.LeadsTo d ∧ Tiles s c.offset (scanFrom bound c).lexemes d.offset ∧
      Exhausted d (scanFrom bound c).ending ∧
      ∀ l ∈ (scanFrom bound c).lexemes, l.StandsAlone s := by
  induction bound generalizing c with
  | zero => exact absurd hbound (Nat.not_lt_zero _)
  | succ bound ih =>
    cases hnext : next? c with
    | error p =>
      -- the scan stops at a fault
      rw [scanFrom_of_error hnext]
      exact ⟨c, .refl c, .nil _, hnext, nofun⟩
    | ok found =>
      obtain ⟨_ | l, after⟩ := found
      -- only blanks are left
      · have hblank := Cursor.rest_skipBlank_eq_nil.1 (next?_eq_ok_none.1 hnext).1
        rw [scanFrom_of_blank hblank]
        exact ⟨c, .refl c, .nil _, hblank, nofun⟩
      · have hleads : c.LeadsTo after := (next?_eq_ok hnext).2.2.2
        obtain ⟨blank, w, hblank, hne, hgap, hw, hstart, hstop, hafter⟩ :=
          exists_text_of_next? hnext
        -- each token takes a character at least, so the bound is never what stops the scan
        have hshort : after.rest.length < bound := by
          have hlength := congrArg List.length (hgap.trans (congrArg _ hw))
          have hpos := List.length_pos_iff.2 hne
          rw [List.length_append, List.length_append] at hlength
          omega
        obtain ⟨d, hd, htiles, hends, halone⟩ := ih (hc.trans hleads) hshort
        rw [scanFrom_succ hnext]
        rw [hafter] at htiles
        refine ⟨d, hleads.trans hd, .cons ?_ hblank ?_ hne htiles, hends, fun t ht => ?_⟩
        · rw [hstart]
          exact Cursor.slice?_of_leadsTo hc hgap
        · rw [hstop, start_of_next? hnext]
          exact Cursor.slice?_of_leadsTo hc.skipBlank hw
        · rcases List.mem_cons.1 ht with rfl | ht
          · exact standsAlone_of_next? hc hnext
          · exact halone t ht

/-- The tokens from a place of a text on tile it.  They come one after the other and none of them is
empty; in front of each there is nothing but white space, and nothing else follows the last one,
unless what follows is no token and is the problem.  Each token is all that is read of the text that
it takes up, so that none depends on the others. -/
theorem scan_tiles (hc : (Cursor.ofText s).LeadsTo c) :
    ∃ d, c.LeadsTo d ∧ Tiles s c.offset (scan c).lexemes d.offset ∧
      Span.Spaced c.offset ((scan c).lexemes.map fun l => ⟨l.start, l.stop⟩) d.offset ∧
      Exhausted d (scan c).ending ∧ ∀ l ∈ (scan c).lexemes, l.StandsAlone s := by
  obtain ⟨d, hd, htiles, hends, halone⟩ := scanFrom_tiles hc (Nat.lt_succ_self c.rest.length)
  exact ⟨d, hd, htiles, htiles.spaced.2, hends, halone⟩

/-- Behind the braces, `?.5` is a mark and a number, `>>>=` is one mark, and `#` is no token. -/
theorem scan_tiles_conditional :
    (Cursor.ofText "\x7b\x7bé?.5e:'\\x41' >>>=#".toList).LeadsTo
        ((Cursor.ofText "\x7b\x7bé?.5e:'\\x41' >>>=#".toList).move 2) ∧
      (scan ((Cursor.ofText "\x7b\x7bé?.5e:'\\x41' >>>=#".toList).move 2)).lexemes.map
          (fun l => (l.start, l.stop)) =
        [(2, 4), (4, 5), (5, 7), (7, 8), (8, 9), (9, 15), (16, 20)] ∧
      ∀ l ∈ (scan ((Cursor.ofText "\x7b\x7bé?.5e:'\\x41' >>>=#".toList).move 2)).lexemes,
        l.StandsAlone "\x7b\x7bé?.5e:'\\x41' >>>=#".toList := by
  have hleads : (Cursor.ofText "\x7b\x7bé?.5e:'\\x41' >>>=#".toList).LeadsTo
      ((Cursor.ofText "\x7b\x7bé?.5e:'\\x41' >>>=#".toList).move 2) := ⟨2, rfl⟩
  obtain ⟨-, -, -, -, -, halone⟩ := scan_tiles hleads
  exact ⟨hleads, by decide +kernel, halone⟩

end Lexeme

end PromptMarkup

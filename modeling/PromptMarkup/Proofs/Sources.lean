/-
Every expression is what its own text says.

* `BracketsMatch` — a text in which no bracket is closed that was not opened, and none stays open;
* `Expr.StandsIn` — an expression that is part of a text or of a template;
* `Expr.Embedded.extent` — the tokens from its start to its end, which are read one after the other;
* `Expr.own_source` — the text between the ends of an expression is read as this expression, at
  offsets that count from its start.

Design notes: a link of an optional chain that is not the last one is read with the boundary of a
chain around it, as any text is that has an optional link in it (`Expr.closed`).  Where an operand
at the end of an expression stands in round brackets, the span has one of the two and not the other,
and its text is no expression; such texts are told by their brackets.
-/
import PromptMarkup.Proofs.Endings
import PromptMarkup.Proofs.Reading
import PromptMarkup.Proofs.Relocation
import PromptMarkup.Yaml.Document

namespace PromptMarkup

open Grammar
open Text (Cursor)

/-! ### Tokens and their brackets -/

/-- The brackets of a text match: none is closed that was not opened, and none stays open. -/
def BracketsMatch (s : List Char) : Prop :=
  (Lexeme.run (Cursor.ofText s)).ending = .endOfText ∧ depthAfter? 0
    (Lexeme.run (Cursor.ofText s)).lexemes = some 0

theorem depthAfter?_relocate (f : Nat → Nat) (depth : Nat) (xs : List Lexeme) :
    depthAfter? depth (xs.map (Lexeme.relocate f)) = depthAfter? depth xs := by
  induction xs generalizing depth with
  | nil => rfl
  | cons l xs ih =>
    rw [List.map_cons, depthAfter?, depthAfter?]
    exact congrArg _ (funext fun depth => ih depth)

namespace Lexeme

/-- Offsets that count from the start of a text, and from the start of an excerpt again. -/
theorem relocate_back (k : Nat) (xs : List Lexeme) :
    (xs.map (relocate (· + k))).map (relocate (· - k)) = xs := by
  rw [List.map_map]
  exact (List.map_congr_left fun l _ => by simp [relocate]).trans (List.map_id xs)

variable {c d : Cursor} {xs : List Lexeme}

/-- Tokens that close a bracket they do not open are not read to their end. -/
theorem Yields.exists_closer (h : Yields c xs d) {bound depth : Nat}
    (hdepth : depthAfter? depth xs = none)
    (hbound : xs.length < bound) : ∃ l, (runFrom bound depth c).ending = .closer l := by
  induction h generalizing bound depth with
  | nil c => exact nomatch hdepth
  | @cons c after d l ls hnext others ih =>
    obtain ⟨bound, rfl⟩ := Nat.exists_eq_succ_of_ne_zero (Nat.ne_of_gt (Nat.zero_lt_of_lt hbound))
    rw [depthAfter?, Token.depth?_recognise] at hdepth
    rw [runFrom_succ hnext]
    cases hl : l.token.depth? depth with
    | none => exact ⟨l, rfl⟩
    | some depth₁ =>
      rw [hl] at hdepth
      exact ih hdepth (Nat.lt_of_succ_lt_succ hbound)

/-- The tokens of a text in which the brackets match. -/
theorem Yields.depthAfter?_of_matching {s : List Char} (h : Yields (Cursor.ofText s) xs d)
    (hend : d.rest = []) (hbrackets : BracketsMatch s) : depthAfter? 0 xs = some 0 := by
  -- if a bracket was closed that was not opened, reading the text would have ended there
  cases hdepth : depthAfter? 0 xs with
  | none =>
    have hbound : xs.length < (Cursor.ofText s).rest.length + 1 := by
      have hle := h.length_le
      omega
    obtain ⟨l, hl⟩ := h.exists_closer hdepth hbound
    exact nomatch hl.symm.trans hbrackets.1
  | some depth =>
    have hrun := h.run_eq hdepth hend
    have hzero := hbrackets.2
    rw [hrun] at hzero
    exact hdepth.symm.trans hzero

/-- Tokens reach from the place where the first one starts to the place where reading goes on. -/
theorem Yields.spanOf_eq (h : Yields c xs d) (hxs : xs ≠ []) :
    spanOf xs = ⟨c.skipBlank.offset, d.offset⟩ := by
  cases h with
  | nil => exact absurd rfl hxs
  | cons hnext others =>
    rw [spanOf, start_of_next? hnext, (next?_eq_ok hnext).2.2.1, others.stopOf_eq]

end Lexeme

namespace Expr

/-! ### Expressions in a text -/

/-- An expression inside of a text that is one expression, or inside of an expression of a template.
-/
inductive StandsIn [ConfigReader] (source : String) (e : Expr) : Prop
  | alone {whole : Expr} (hread : readWhole source.toList = .ok whole) (he : e ∈ whole.subterms)
  | inTemplate {t : Template} {n : Node} {whole : Expr} (hread : Template.read source = .ok t)
    (hn : n ∈ t.root.nodes) (hwhole : whole ∈ n.expressions) (he : e ∈ whole.subterms)

theorem StandsIn.embedded [ConfigReader] {source : String} {e : Expr} (h : e.StandsIn source) :
    ∃ whole : Expr, whole.Embedded (Cursor.ofText source.toList) ∧ e ∈ whole.subterms := by
  cases h with
  | @alone whole hread he =>
    obtain ⟨xs, d, hyields, hblank, hderives, hassigns⟩ := readWhole_iff.1 hread
    have hends := Lexeme.endsAt_iff.2 (.inl (Cursor.rest_skipBlank_eq_nil.2 hblank))
    have hembedded := readEmbedded_iff.2 ⟨xs, d, hyields, hends, hderives, hassigns, rfl⟩
    exact ⟨whole, ⟨_, d.offset, .refl _, hembedded⟩, he⟩
  | @inTemplate t n whole hread hn hwhole he =>
    exact ⟨whole, (Template.regular_of_read hread n hn).marked.expressions whole hwhole, he⟩

/-- The tokens from the start of an expression to its end are read one after the other.  Together
with the brackets around its ends, they derive it. -/
theorem Embedded.extent {b : Cursor} {whole e : Expr} (h : whole.Embedded b)
    (he : e ∈ whole.subterms) :
    e.Assigns ∧ ∃ c d p v q, b.LeadsTo c ∧ Lexeme.Yields c v d ∧ v ≠ [] ∧
    e.span = ⟨c.offset, d.offset⟩ ∧
      Derives .expression (p ++ v ++ q) e.closed ∧ (∀ o ∈ p, o.token = .punct .leftParen) ∧
      (depthAfter? 0 v = some 0 → p = [] ∧ q = []) := by
  obtain ⟨b', stop, hb, hread⟩ := h
  -- the grammar finds the tokens of the expression among those of the whole one
  obtain ⟨-, hderives, hassigns, -⟩ := derives_of_read hread
  obtain ⟨ys, ⟨front, back, hall⟩, howns⟩ := hderives.covers whole List.mem_cons_self e he
  obtain ⟨p, v, q, rfl, hp, hv, hspan, hends⟩ := howns.ends
  -- and they stand there one after the other
  obtain ⟨d', hyields⟩ := Lexeme.yields_of_runFrom (b'.rest.length + 1) 0 b'
  have hyields' : Lexeme.Yields b' ((front ++ p) ++ (v ++ (q ++ back))) d' := by
    have hlexemes : (Lexeme.runFrom (b'.rest.length + 1) 0 b').lexemes =
      (front ++ p) ++ (v ++ (q ++ back)) := by
      rw [← Lexeme.run, ← hall]
      simp
    rwa [hlexemes] at hyields
  obtain ⟨c, hc, hrest⟩ := hyields'.divide
  obtain ⟨d, hd, -⟩ := hrest.divide
  refine ⟨fun x hx => hassigns x (mem_subterms_trans he hx), c.skipBlank, d, p, v, q, ?_,
    hd.skipBlank hv, hv, ?_, howns.derives, hp, hends⟩
  · exact (hb.trans hc.leadsTo).skipBlank
  · rw [← hspan, hd.spanOf_eq hv]

/-- The tokens of the text from the start of an expression to its end.  Together with the brackets
around its ends, they derive it, at the place where it stands. -/
theorem Embedded.tokens {source : String} {whole e : Expr}
    (h : whole.Embedded (Cursor.ofText source.toList)) (he : e ∈ whole.subterms) :
    e.Assigns ∧ ∃ v d p q, Lexeme.Yields (Cursor.ofText (Text.slice source.toList e.start e.stop)) v
    d ∧ d.rest = [] ∧
      v ≠ [] ∧ Derives .expression (p ++ v.map (Lexeme.relocate (· + e.start)) ++ q) e.closed ∧
      (∀ o ∈ p, o.token = .punct .leftParen) ∧ (depthAfter? 0 v = some 0 → p = [] ∧ q = []) := by
  obtain ⟨hassigns, c, d, p, v, q, hc, hv, hne, hspan, hderives, hp, hends⟩ := h.extent he
  have hstart : e.start = c.offset := congrArg Span.start hspan
  have hstop : e.stop = d.offset := congrArg Span.stop hspan
  -- the span of `e` in the source reads alone as it reads there
  have hslice := Cursor.slice_of_leadsTo hc hv.leadsTo
  rw [hstart, hstop]
  generalize Text.slice source.toList c.offset d.offset = s at hslice ⊢
  have hcopies : (Cursor.ofText s).Copies c.offset c :=
    ⟨⟨d.rest, hslice.symm⟩, (Nat.zero_add _).symm⟩
  obtain ⟨v', d', hv', hend, -, rfl⟩ := hv.excerpt hcopies hslice.symm
  refine ⟨hassigns, v', d', p, q, hv', hend, fun hnil => hne ?_, hderives, hp,
    fun hdepth => hends ?_⟩
  · rw [hnil]
    rfl
  · exact (depthAfter?_relocate _ 0 v').trans hdepth

/-- The tokens of the text from the start of an expression to its end, if its brackets match: at the
place where the expression stands they derive it, and so they do at offsets that count from its
start. -/
theorem Embedded.excerpt {source : String} {whole e : Expr}
    (h : whole.Embedded (Cursor.ofText source.toList))
    (he : e ∈ whole.subterms)
    (hbrackets : BracketsMatch (Text.slice source.toList e.start e.stop)) :
    ∃ xs d, Lexeme.Yields (Cursor.ofText (Text.slice source.toList e.start e.stop)) xs d ∧
    d.rest = [] ∧
      Derives .expression (xs.map (Lexeme.relocate (· + e.start))) e.closed ∧
      Derives .expression xs (e.closed.relocate (· - e.start)) ∧ e.closed.Assigns := by
  obtain ⟨hassigns, v, d, p, q, hv, hend, -, hderives, -, hends⟩ := h.tokens he
  obtain ⟨rfl, rfl⟩ := hends (hv.depthAfter?_of_matching hend hbrackets)
  rw [List.nil_append, List.append_nil] at hderives
  -- they derive the expression at offsets that count from its start
  have hback := hderives.relocate (· - e.start)
  rw [Lexeme.relocate_back] at hback
  exact ⟨v, d, hv, hend, hderives, hback, assigns_closed hassigns⟩

/-- The text from the start of an expression to its end, if its brackets match, is read as this
expression, at offsets that count from its start.  A link of an optional chain is read with the
boundary of a chain around it. -/
theorem own_source [ConfigReader] {source : String} {e : Expr} (h : e.StandsIn source)
    (hbrackets : BracketsMatch (Text.slice source.toList e.start e.stop)) :
    ∃ e', readWhole (Text.slice source.toList e.start e.stop) = .ok e' ∧
    e'.relocate (· + e.start) = e.closed := by
  obtain ⟨whole, hembedded, he⟩ := h.embedded
  obtain ⟨xs, d, hyields, hend, hderives, hback, hassigns⟩ := hembedded.excerpt he hbrackets
  have hback' := assigns_relocate (· - e.start) hassigns
  refine ⟨_, readWhole_iff.2 ⟨xs, d, hyields, hend.symm ▸ rfl, hback, hback'⟩, ?_⟩
  exact eq_of_derives (hback.relocate (· + e.start)) (assigns_relocate _ hback') hderives hassigns

/-- In the attribute `(a) + b?.c.d`, the text of the link in the middle is `b?.c`, which is read as
a chain. -/
theorem own_source_linkInAttribute :
    StandsIn "<text a={{ (a) + b?.c.d }} />"
    (.member ⟨17, 21⟩ (.identifier ⟨17, 18⟩ "b") (.named "c") true) ∧
      BracketsMatch (Text.slice "<text a={{ (a) + b?.c.d }} />".toList 17 21) ∧
      ∃ e', readWhole (Text.slice "<text a={{ (a) + b?.c.d }} />".toList 17 21) = .ok e' ∧
        e'.relocate (· + 17) =
          .chain ⟨17, 21⟩ (.member ⟨17, 21⟩ (.identifier ⟨17, 18⟩ "b") (.named "c") true) := by
  have hstands : StandsIn "<text a={{ (a) + b?.c.d }} />"
      (.member ⟨17, 21⟩ (.identifier ⟨17, 18⟩ "b") (.named "c") true) := by
    have hread : Template.read "<text a={{ (a) + b?.c.d }} />" = .ok _ := rfl
    exact .inTemplate hread (.tail _ (.head _)) (.head _)
      (.tail _ (.tail _ (.tail _ (.tail _ (.head _)))))
  have hbrackets : BracketsMatch (Text.slice "<text a={{ (a) + b?.c.d }} />".toList 17 21) :=
    ⟨rfl, rfl⟩
  exact ⟨hstands, hbrackets, own_source hstands hbrackets⟩

/-- A link of an optional chain is not read without a boundary around it; and the text of `-(a)`
ends in front of the bracket, so that it is no expression. -/
theorem own_source_fails :
    (StandsIn "a?.b" (.member ⟨0, 4⟩ (.identifier ⟨0, 1⟩ "a") (.named "b") true) ∧
      ¬∃ e', readWhole (Text.slice "a?.b".toList 0 4) = .ok e' ∧
        e'.relocate (· + 0) = .member ⟨0, 4⟩ (.identifier ⟨0, 1⟩ "a") (.named "b") true) ∧
    StandsIn "-(a)" (.unary ⟨0, 3⟩ .minus (.identifier ⟨2, 3⟩ "a")) ∧
      ¬∃ e', readWhole (Text.slice "-(a)".toList 0 3) = .ok e' ∧
        e'.relocate (· + 0) = .unary ⟨0, 3⟩ .minus (.identifier ⟨2, 3⟩ "a") := by
  have hchain : readWhole "a?.b".toList =
      .ok (.chain ⟨0, 4⟩ (.member ⟨0, 4⟩ (.identifier ⟨0, 1⟩ "a") (.named "b") true)) := rfl
  have hminus : readWhole "-(a)".toList = .ok (.unary ⟨0, 3⟩ .minus (.identifier ⟨2, 3⟩ "a")) := rfl
  refine ⟨⟨.alone hchain (.tail _ (.head _)), ?_⟩, .alone hminus (.head _), ?_⟩
  · rintro ⟨e', hread, he'⟩
    have hslice : readWhole (Text.slice "a?.b".toList 0 4) =
        .ok (.chain ⟨0, 4⟩ (.member ⟨0, 4⟩ (.identifier ⟨0, 1⟩ "a") (.named "b") true)) := rfl
    obtain rfl := Except.ok.inj (hread.symm.trans hslice)
    exact nomatch he'
  · rintro ⟨e', hread, -⟩
    exact nomatch hread

end Expr

end PromptMarkup

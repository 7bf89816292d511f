/-
Front matter comes first, and once.

* `Node.configsAll` — the front matter in several nodes and in everything inside of them;
* `Leads` — there is no front matter in several nodes, or it is one of them, in front of which there
  is only white space;
* `Reader.Leads.step`, `Reader.Leads.run` — what was read into the root is so at every step, and
  nothing else that is open has front matter in it;
* `Template.Divides` — the source of a template with front matter, piece by piece;
* `Template.Configures` — the fields that the front matter of a template sets, by the text of its
  node;
* `Template.configures_of_read` — these are the configuration of a template that was read;
* `Template.frontMatter_of_read` — a template that was read has no front matter, and its source is
  its body, or it has one, directly in its root, that divides the source.

Design notes: front matter is only taken where nothing but white space is in front.  There the root
is all that is open, and only texts of white space were read into it, because a step over white
space takes a text (`Reader.step_of_blank`).
-/
import PromptMarkup.Proofs.Layout
import PromptMarkup.Yaml.Document

namespace PromptMarkup

open Text (Cursor byteLength allBlank IsDelimiter IsBlock)

variable {s : List Char} {ns : List Node} {n : Node} {c : Cursor}

/-! ### Front matter in trees -/

namespace Node

/-- The node is front matter. -/
def isConfig : Node → Bool
  | config _ _ _ => true
  | _ => false

/-- The front matter in several nodes and in everything inside of them. -/
def configsAll (ns : List Node) : List Node :=
  pick (Option.guard isConfig) ns

theorem configsAll_eq_filter (ns : List Node) : configsAll ns = (nodesAll ns).filter isConfig := by
  rw [configsAll, pick, List.filterMap_eq_filter]

theorem configsAll_append (l r : List Node) : configsAll (l ++ r) = configsAll l ++ configsAll r :=
  pick_append _ l r

theorem configsAll_eq_nil : configsAll ns = [] ↔ ∀ n ∈ nodesAll ns, n.isConfig = false := by
  rw [configsAll_eq_filter, List.filter_eq_nil_iff]
  exact forall₂_congr fun n _ => by rw [Bool.not_eq_true]

theorem configsAll_one (h : n.isConfig = false) : configsAll [n] = configsAll n.childNodes := by
  simp [configsAll, h]

theorem isConfig_number (n : Node) (k : Nat) : (n.number k).1.isConfig = n.isConfig := by
  cases n <;> rfl

theorem isBlank_number (n : Node) (k : Nat) : (n.number k).1.isBlank = n.isBlank := by
  cases n <;> rfl

/-- Numbering adds no front matter. -/
theorem configsAll_numberAll (h : configsAll ns = []) (k : Nat) : configsAll (numberAll k ns).1 =
    [] := by
  rw [configsAll_eq_nil] at h ⊢
  intro m hm
  obtain ⟨x, hx, hm⟩ := mem_nodesAll.1 hm
  obtain ⟨y, hy, j, rfl⟩ := mem_numberAll hx
  obtain ⟨z, hz, i, rfl⟩ := mem_nodes_number hm
  exact (isConfig_number z i).trans (h z (mem_nodesAll.2 ⟨y, hy, hz⟩))

/-- A text of white space has no front matter in it. -/
theorem configsAll_blank (h : ∀ n ∈ ns, n.isBlank = true) : configsAll ns = [] := by
  refine configsAll_eq_nil.2 fun m hm => ?_
  obtain ⟨n, hn, hm⟩ := mem_nodesAll.1 hm
  cases n with
  | text info data =>
    obtain rfl := List.mem_singleton.1 hm
    rfl
  | _ => exact nomatch h _ hn

end Node

open Node (configsAll)

/-- The parts of a block that is closed have no front matter if the block had none. -/
theorem Frame.configsAll_parts {t : Trim} {closeStart : Nat} {children : List Node}
    {otherwise : Option (Nat × List Node)}
    (h : configsAll (children.reverse ++ ((otherwise.map Prod.snd).getD []).reverse) = []) :
    configsAll (trimChildren t children.reverse ++ (elsePart t closeStart otherwise).toList) = [] :=
  (pick_parts (fun _ _ => rfl) (fun _ _ => rfl) t closeStart children otherwise).trans h

theorem unescaped_of_blank {w : List Char} (h : allBlank w = true) : unescaped w = w := by
  induction w with
  | nil => exact unescaped_nil
  | cons x w ih =>
    obtain ⟨hx, hw⟩ := Bool.and_eq_true_iff.1 (show (Text.isBlank x && allBlank w) = true from h)
    rw [unescaped_cons, ih hw]
    rintro ⟨t, ht⟩
    obtain ⟨rfl, -⟩ := List.cons.inj ht
    exact Bool.noConfusion hx

/-- The characters between two places of a text stand in front of the second one. -/
theorem before_of_leadsTo {c d : Cursor} {w : List Char} (hc : (Cursor.ofText s).LeadsTo c)
    (h : c.LeadsTo d) (hw : c.rest = w ++ d.rest) : d.before.reverse = c.before.reverse ++ w := by
  have hd := (hc.trans h).text_eq
  rw [← hc.text_eq, hw, ← List.append_assoc] at hd
  exact (List.append_left_inj d.rest).1 hd

/-! ### The front matter of a template -/

namespace Template

/-- The pieces of the source of a template with front matter: white space that is empty or ends a
line, the line that opens the front matter, its text, the line that closes it, line breaks and the
body. -/
structure Divides (t : Template) (n : Node) (lead opening raw closing breaks : List Char) :
    Prop where
  source : t.source.toList = lead ++
    ((opening ++ '\n' :: (raw ++ closing)) ++ (breaks ++ t.body.toList))
  node : ∃ info value, n = .config info value (String.ofList raw)
  start : n.info.start = byteLength lead
  stop : n.info.stop = byteLength lead + byteLength (opening ++ '\n' :: (raw ++ closing))
  blank : allBlank lead = true
  lineStart : ∀ x ∈ lead.getLast?, x = '\n'
  opening : IsDelimiter opening
  block : IsBlock raw
  closing : IsDelimiter closing
  lineEnd : ∀ x ∈ (breaks ++ t.body.toList).head?, x = '\n'
  breaks : ∀ x ∈ breaks, x = '\r' ∨ x = '\n'
  body : ∀ x ∈ t.body.toList.head?, x ≠ '\r' ∧ x ≠ '\n'

/-- The node of the front matter is the first one that is not white space. -/
theorem configNode?_eq_some {t : Template} {blanks others : List Node} {info : NodeInfo}
    {value : Json} {raw : String}
    (h : t.root.childNodes = blanks ++ .config info value raw :: others)
    (hblanks : ∀ b ∈ blanks, b.isBlank = true) :
    t.configNode? = some (.config info value raw) := by
  have hfind : t.root.childNodes.find? (fun n => !n.isBlank) = some (.config info value raw) := by
    rw [h, List.find?_append,
      List.find?_eq_none.2 fun b hb => by rw [hblanks b hb]; exact Bool.false_ne_true]
    rfl
  rw [configNode?, hfind]

/-- In front of the node of the front matter there are only texts of white space. -/
theorem eq_append_of_configNode? {t : Template} (h : t.configNode? = some n) :
    n.isConfig = true ∧
      ∃ blanks others, t.root.childNodes = blanks ++ n :: others ∧
      ∀ b ∈ blanks, b.isBlank = true := by
  unfold configNode? at h
  split at h
  · next heq =>
    obtain rfl := Option.some.inj h
    obtain ⟨-, blanks, others, hnodes, hblanks⟩ := List.find?_eq_some_iff_append.1 heq
    exact ⟨rfl, blanks, others, hnodes, fun b hb => by simpa using hblanks b hb⟩
  · exact nomatch h

theorem mem_of_configNode? {t : Template} (h : t.configNode? = some n) :
    n ∈ t.root.childNodes ∧ n.isConfig = true := by
  obtain ⟨hconfig, blanks, others, hnodes, -⟩ := eq_append_of_configNode? h
  exact ⟨hnodes ▸ List.mem_append_right _ List.mem_cons_self, hconfig⟩

/-- A text without the front matter is what is left behind its end and the line breaks that follow.
-/
theorem bodyOf_append {t : Template} (h : t.configNode? = some n) {front : List Char}
    (hfront : byteLength front = n.info.stop) (rest : List Char) :
    ∃ breaks, rest = breaks ++ (t.bodyOf (String.ofList (front ++ rest))).toList ∧
      (∀ x ∈ breaks, x = '\r' ∨ x = '\n') ∧
      ∀ x ∈ (t.bodyOf (String.ofList (front ++ rest))).toList.head?, x ≠ '\r' ∧ x ≠ '\n' := by
  have hbody : (t.bodyOf (String.ofList (front ++ rest))).toList = dropLineBreaks rest := by
    rw [bodyOf, h]
    dsimp only
    rw [← hfront, Text.sliceFrom, String.toList_ofList, String.toList_ofList,
      Text.dropBytes?_append, Option.getD_some]
  rw [hbody]
  refine ⟨rest.takeWhile fun x => x == '\r' || x == '\n', List.takeWhile_append_dropWhile.symm,
    fun x hx => ?_, fun x hx => ?_⟩
  · have hline := List.mem_takeWhile_imp hx
    simpa using hline
  · have hnot := List.head?_dropWhile_not (fun x => x == '\r' || x == '\n') rest
    have hx' : (rest.dropWhile fun x => x == '\r' || x == '\n').head? = some x := hx
    rw [hx'] at hnot
    simpa using hnot

/-- The body is what stands behind the front matter and the line breaks that follow it. -/
theorem divides_of_frontMatter {t : Template} {info : NodeInfo} {value : Json} {raw : String}
    (hc : (Cursor.ofText t.source.toList).LeadsTo c) (hstart : info.start = c.offset)
    (hmatter : c.FrontMatter info.stop raw.toList)
    (hnode : t.configNode? = some (.config info value raw)) :
    ∃ opening closing breaks,
      t.Divides (.config info value raw) c.before.reverse opening raw.toList closing breaks := by
  obtain ⟨opening, closing, rest, hrest, hopening, hblock, hclosing, hend, hstop⟩ := hmatter.lines
  -- the text is cut at the start and at the end of the node
  have htext : t.source.toList =
    c.before.reverse ++ (opening ++ '\n' :: (raw.toList ++ closing)) ++ rest := by
    rw [List.append_assoc, ← hrest, hc.text_eq]
  have hfront : byteLength (c.before.reverse ++ (opening ++ '\n' :: (raw.toList ++ closing))) =
    info.stop := by
    rw [Text.byteLength_append, ← hc.offset_eq, ← hstop]
  obtain ⟨breaks, hsplit, hbreaks, hbody⟩ := bodyOf_append hnode hfront rest
  rw [← htext, String.ofList_toList] at hsplit hbody
  refine ⟨opening, closing, breaks, ?_, ⟨info, value, by rw [String.ofList_toList]⟩,
    hstart.trans hc.offset_eq,
    hstop.trans (congrArg (· + _) hc.offset_eq), ?_, ?_, hopening, hblock, hclosing, ?_,
    hbreaks, hbody⟩
  · rw [body, ← hsplit, ← List.append_assoc, htext]
  · rw [allBlank, List.all_reverse]
    exact hmatter.blank
  · intro x hx
    rw [List.getLast?_reverse] at hx
    exact hmatter.lineStart x hx
  · rw [body, ← hsplit]
    exact hend

end Template

section

variable [ConfigReader]

/-- The fields that front matter with the given text sets: those that are read, and none if the text
is blank. -/
def ConfigReader.Gives (raw : List Char) (fields : Fields Json) : Prop :=
  if allBlank raw then fields = [] else ConfigReader.read raw = .ok (.object fields)

/-- The text of front matter sets no other fields. -/
theorem ConfigReader.Gives.unique {raw : List Char} {fields fields' : Fields Json}
    (h : ConfigReader.Gives raw fields)
    (h' : ConfigReader.Gives raw fields') : fields = fields' := by
  unfold ConfigReader.Gives at h h'
  split at h
  · next hblank =>
    rw [if_pos hblank] at h'
    exact h.trans h'.symm
  · next hmore =>
    rw [if_neg hmore, h] at h'
    exact Json.object.inj (Except.ok.inj h')

theorem readConfig_eq_ok {raw : List Char} {start stop : Nat} {value : Json}
    (h : readConfig raw start stop = .ok value) :
    ∃ fields, value = .object fields ∧ ConfigReader.Gives raw fields := by
  unfold readConfig at h
  unfold ConfigReader.Gives
  split at h
  · next hblank =>
    obtain rfl := Except.ok.inj h
    exact ⟨[], rfl, by rw [if_pos hblank]⟩
  · next hmore =>
    split at h
    · next fields hread =>
      obtain rfl := Except.ok.inj h
      exact ⟨fields, rfl, by rw [if_neg hmore, hread]⟩
    · exact nomatch h
    · exact nomatch h

/-- Among several nodes and inside of them there is no front matter, or one of them is the only one:
it stands in the text, it has the fields that its text sets, and in front of it there are only texts
of white space. -/
def Leads (s : List Char) (ns : List Node) : Prop :=
  configsAll ns = [] ∨ ∃ blanks info fields raw others,
    ns = blanks ++ .config info (.object fields) raw :: others ∧
    (∀ b ∈ blanks, b.isBlank = true) ∧
    configsAll others = [] ∧ ConfigReader.Gives raw.toList fields ∧
    ∃ c, (Cursor.ofText s).LeadsTo c ∧ info.start = c.offset ∧ c.FrontMatter info.stop raw.toList

/-- Something without front matter is added. -/
theorem Leads.append (h : Leads s ns) (hn : configsAll [n] = []) : Leads s (ns ++ [n]) := by
  rcases h with h | ⟨blanks, info, fields, raw, others, rfl, hblanks, hothers, hplace⟩
  · exact .inl (by rw [Node.configsAll_append, h, hn]; rfl)
  · refine .inr ⟨blanks, info, fields, raw, others ++ [n], ?_, hblanks, ?_, hplace⟩
    · rw [List.append_assoc, List.cons_append]
    · rw [Node.configsAll_append, hothers, hn]
      rfl

theorem Leads.number (h : Leads s ns) (k : Nat) : Leads s (Node.numberAll k ns).1 := by
  rcases h with h | ⟨blanks, info, fields, raw, others, rfl, hblanks, hothers, hplace⟩
  · exact .inl (Node.configsAll_numberAll h k)
  · refine .inr ⟨_, _, fields, raw, _, congrArg Prod.fst (Node.numberAll_append k blanks _),
      fun b hb => ?_, Node.configsAll_numberAll hothers _, hplace⟩
    obtain ⟨x, hx, j, rfl⟩ := Node.mem_numberAll hb
    exact (Node.isBlank_number x j).trans (hblanks x hx)

/-! ### Open blocks and elements -/

namespace Frame

/-- Front matter is only in the root, and leads there. -/
def Led (s : List Char) (f : Frame) : Prop :=
  if f.isRoot then Leads s f.contents else configsAll f.contents = []

variable {f : Frame} {frames frames' : List Frame}

theorem led_of_root (h : f.isRoot = true) : f.Led s ↔ Leads s f.contents := by
  rw [Led, if_pos h]

theorem led_of_not_root (h : f.isRoot = false) : f.Led s ↔ configsAll f.contents = [] := by
  rw [Led, h, if_neg Bool.false_ne_true]

theorem Led.append (h : f.Led s) (hn : configsAll [n] = []) : (f.append n).Led s := by
  cases hroot : f.isRoot with
  | true =>
    rw [led_of_root ((isRoot_append f n).trans hroot), contents_append]
    exact ((led_of_root hroot).1 h).append hn
  | false =>
    rw [led_of_not_root ((isRoot_append f n).trans hroot), contents_append, Node.configsAll_append,
      (led_of_not_root hroot).1 h, hn]
    rfl

theorem led_appendNode (h : ∀ f ∈ frames, f.Led s) (hn : configsAll [n] = []) :
    ∀ f ∈ appendNode n frames, f.Led s := by
  cases frames with
  | nil => exact nofun
  | cons f rest =>
    intro g hg
    rcases List.mem_cons.1 hg with rfl | hg
    · exact (h f List.mem_cons_self).append hn
    · exact h g (List.mem_cons_of_mem _ hg)

theorem led_closeIf {t : Trim} {closeStart stop : Nat} (h : ∀ f ∈ frames, f.Led s)
    (hclose : closeIf t closeStart stop none frames = .ok frames') : ∀ f ∈ frames', f.Led s := by
  refine closeIf_invariant (P := fun fs => ∀ f ∈ fs, f.Led s) (fun _ h => h) ?_ h hclose
  intro start blank condition elseIf children otherwise rest hall
  refine led_appendNode (fun f hf => hall f (List.mem_cons_of_mem _ hf)) ?_
  exact (Node.configsAll_one rfl).trans
    (configsAll_parts ((led_of_not_root rfl).1 (hall _ List.mem_cons_self)))

theorem led_openElse {elseIf : Bool} {start : Nat} (h : ∀ f ∈ frames, f.Led s)
    (haccepts : Reader.acceptsElse ⟨c, frames⟩ elseIf = true) :
    ∀ f ∈ Reader.openElse start frames, f.Led s := by
  obtain ⟨_, _, _, _, _, _, rfl⟩ | ⟨-, _, _, _, _, _, rfl⟩ := acceptsElse_eq_true haccepts
  · have hfirst := h _ List.mem_cons_self
    intro f hf
    rcases List.mem_cons.1 hf with rfl | hf
    · exact hfirst
    · exact h f (List.mem_cons_of_mem _ hf)
  · have hfirst := h _ List.mem_cons_self
    intro f hf
    rcases List.mem_cons.1 hf with rfl | hf
    · exact hfirst
    · exact h f (List.mem_cons_of_mem _ hf)

end Frame

/-! ### Steps -/

/-- A step adds front matter only where nothing but white space is in front. -/
theorem Reader.Change.led {stop : Nat} {frames frames' : List Frame}
    (h : Change c stop frames frames')
    (hc : (Cursor.ofText s).LeadsTo c) (hled : ∀ f ∈ frames, f.Led s)
    (hfront : allBlank c.before = true → ∃ children, frames = [.root children] ∧
      ∀ n ∈ children, n.isBlank = true)
    (hgives : ∀ info value raw, c.FrontMatter info.stop raw.toList →
      frames' = appendNode (.config info value raw) frames →
        ∃ fields, value = .object fields ∧ ConfigReader.Gives raw.toList fields) :
    ∀ f ∈ frames', f.Led s := by
  -- what is opened is empty, so that no front matter is in it
  have hpush : ∀ {f : Frame} {rest : List Frame}, f.isRoot = false → f.contents = [] →
    (∀ g ∈ rest, g.Led s) →
      ∀ g ∈ f :: rest, g.Led s := by
    intro f rest hroot hempty hrest g hg
    rcases List.mem_cons.1 hg with rfl | hg
    · rw [Frame.led_of_not_root hroot, hempty]
      rfl
    · exact hrest g hg
  cases h with
  | @added n leaf noElse spans marked tag taken =>
    cases hconfig : n.isConfig with
    | false =>
      exact Frame.led_appendNode hled ((Node.configsAll_one hconfig).trans (by rw [leaf]; rfl))
    | true =>
      cases n with
      | config info value raw =>
        -- front matter is taken where only white space is in front, where the root is all that is
        -- open
        have hmatter := taken.config info value raw rfl
        obtain ⟨children, rfl, hblanks⟩ := hfront hmatter.blank
        obtain rfl : info = _ := taken.info
        obtain ⟨fields, rfl, hfields⟩ := hgives _ value raw hmatter rfl
        intro f hf
        obtain rfl := List.mem_singleton.1 hf
        rw [Frame.led_of_root rfl]
        refine .inr ⟨children.reverse, _, fields, raw, [], List.reverse_cons, fun b hb => ?_, rfl,
          hfields, c, hc, rfl, hmatter⟩
        exact hblanks b (List.mem_reverse.1 hb)
      | _ => exact nomatch hconfig
  | @opened f empty spans marked starts =>
    refine hpush ?_ empty hled
    cases f with
    | root children => exact nomatch starts
    | _ => rfl
  | otherwise haccepts => exact Frame.led_openElse hled haccepts
  | elseIf condition embedded haccepts => exact hpush rfl rfl (Frame.led_openElse hled haccepts)
  -- what is closed goes into what was below it, with what it holds
  | closedIf h => exact Frame.led_closeIf hled h
  | closedFor h =>
    obtain ⟨_, _, _, _, _, rest, rfl, rfl⟩ := closeFor_eq_ok h
    refine Frame.led_appendNode (fun f hf => hled f (List.mem_cons_of_mem _ hf))
      ((Node.configsAll_one rfl).trans ?_)
    exact Frame.configsAll_parts ((Frame.led_of_not_root rfl).1 (hled _ List.mem_cons_self))
  | closedElement h =>
    obtain ⟨_, _, _, rest, rfl, rfl⟩ := closeElement_eq_ok h
    refine Frame.led_appendNode (fun f hf => hled f (List.mem_cons_of_mem _ hf))
      ((Node.configsAll_one rfl).trans ?_)
    exact (Frame.led_of_not_root rfl).1 (hled _ List.mem_cons_self)

/-- White space is taken as text: nothing else starts with it. -/
theorem Reader.step_of_blank {r : Reader} {x : Char} {rest : List Char}
    (hrest : r.cursor.rest = x :: rest) (hx : Text.isBlank x = true) : r.step = .ok r.text := by
  -- the first character is white space, with which none of the marks starts
  have hne : ∀ y : Char, Text.isBlank y = false → x ≠ y := by
    rintro y hy rfl
    exact Bool.noConfusion (hx.symm.trans hy)
  have hconfig : seesConfig r.cursor r.frames = false := by
    have hline : isDelimiterLine r.cursor.rest = false := by
      rw [hrest]
      unfold isDelimiterLine
      split
      · next heq => exact absurd (List.cons.inj heq).1 (hne '-' (by decide))
      · rfl
    simp [seesConfig, hline]
  have hcomment : r.cursor.sees "/*" = false := by
    rw [Cursor.sees, hrest]
    exact Bool.and_eq_false_iff.2 (.inl (beq_eq_false_iff_ne.2 (hne '/' (by decide)).symm))
  have hbraces : r.cursor.sees openBraces = false := by
    rw [Cursor.sees, hrest]
    exact Bool.and_eq_false_iff.2 (.inl (beq_eq_false_iff_ne.2 (hne '\x7b' (by decide)).symm))
  have htag : seesTag r.cursor.rest = false := by
    rw [hrest]
    unfold seesTag
    split
    · next heq => exact absurd (List.cons.inj heq).1 (hne '<' (by decide))
    · next heq => exact absurd (List.cons.inj heq).1 (hne '<' (by decide))
    · rfl
  unfold step
  dsimp only
  rw [hconfig, hcomment, hbraces, htag]
  rfl

namespace Reader

variable {r r' : Reader}

/-- Front matter was read only into the root and leads there.  As long as only white space is in
front of the reader, nothing but white space was read, and nothing was opened. -/
structure Leads (s : List Char) (r : Reader) : Prop where
  place : (Cursor.ofText s).LeadsTo r.cursor
  led : ∀ f ∈ r.frames, f.Led s
  front : allBlank r.cursor.before = true →
    ∃ children, r.frames = [.root children] ∧ ∀ n ∈ children, n.isBlank = true

theorem leads_ofText (s : List Char) : (Reader.ofText s).Leads s := by
  refine ⟨.refl _, fun f hf => ?_, fun _ => ⟨[], rfl, nofun⟩⟩
  obtain rfl := List.mem_singleton.1 hf
  exact (Frame.led_of_root rfl).2 (.inl rfl)

/-- The front matter that a reader takes has the fields that its text sets. -/
theorem gives_of_config (h : r.config = .ok r') : ∃ info fields raw,
    r'.frames = appendNode (.config info (.object fields) raw) r.frames ∧
    ConfigReader.Gives raw.toList fields := by
  unfold config at h
  dsimp only at h
  split at h
  · exact nomatch h
  · next length hlength =>
    cases hread : readConfig ((r.cursor.moveWhile (· != '\n')).step.rest.take length)
      (r.cursor.moveWhile (· != '\n')).step.offset
      ((r.cursor.moveWhile (· != '\n')).step.move length).offset with
    | error p =>
      rw [hread] at h
      exact nomatch h
    | ok value =>
      rw [hread] at h
      obtain rfl := Except.ok.inj h
      obtain ⟨fields, rfl, hfields⟩ := readConfig_eq_ok hread
      exact ⟨_, fields, _, rfl, by rwa [String.toList_ofList]⟩

/-- Where front matter stands, and nothing is open, a step takes the front matter. -/
theorem gives_of_frontMatter {children : List Node} {info : NodeInfo} {value : Json} {raw : String}
    (hframes : r.frames = [.root children]) (hmatter : r.cursor.FrontMatter info.stop raw.toList)
    (hstep : r.step = .ok r') (hadded : r'.frames = appendNode (.config info value raw) r.frames) :
    ∃ fields, value = .object fields ∧ ConfigReader.Gives raw.toList fields := by
  have hsees : seesConfig r.cursor r.frames = true :=
    seesConfig_of_frontMatter hmatter (by rw [hframes]; rfl)
  have hconfig : r.step = r.config := by
    unfold step
    dsimp only
    rw [if_pos hsees]
  obtain ⟨info', fields, raw', hframes', hfields⟩ := gives_of_config (hconfig.symm.trans hstep)
  rw [hframes', hframes] at hadded
  -- the node that was added is the one that was read
  obtain ⟨hnode, -⟩ := List.cons.inj (Frame.root.inj (List.cons.inj hadded).1)
  obtain ⟨-, rfl, rfl⟩ := Node.config.inj hnode
  exact ⟨fields, rfl, hfields⟩

theorem Leads.step (h : r.Leads s) (hne : r.cursor.rest ≠ []) (hstep : r.step = .ok r') :
    r'.Leads s := by
  obtain ⟨hbehind, hchange⟩ := (change_step r).ok r' hstep
  have hgives : ∀ info value raw, r.cursor.FrontMatter info.stop raw.toList →
      r'.frames = appendNode (.config info value raw) r.frames →
        ∃ fields, value = .object fields ∧ ConfigReader.Gives raw.toList fields := by
    intro info value raw hmatter hadded
    obtain ⟨children, hframes, -⟩ := h.front hmatter.blank
    exact gives_of_frontMatter hframes hmatter hstep hadded
  refine ⟨h.place.trans hbehind.of_step, hchange.led h.place h.led h.front hgives, fun hblank => ?_⟩
  -- what the step took is white space, so it took a text
  obtain ⟨w, hw, hoffset⟩ := hbehind.of_step.exists_append
  have hbefore := before_of_leadsTo h.place hbehind.of_step hw
  have hall : allBlank (r.cursor.before.reverse ++ w) = true := by
    rw [← hbefore, allBlank, List.all_reverse]
    exact hblank
  rw [allBlank, List.all_append, List.all_reverse, Bool.and_eq_true] at hall
  obtain ⟨children, hframes, hchildren⟩ := h.front hall.1
  have hwne : w ≠ [] := by
    rintro rfl
    have hlt := Nat.lt_of_lt_of_le (Cursor.offset_lt_step hne) hbehind.offset_le
    rw [hoffset] at hlt
    exact Nat.lt_irrefl _ hlt
  obtain ⟨x, w', rfl⟩ := List.exists_cons_of_ne_nil hwne
  have hx : Text.isBlank x = true := List.all_eq_true.1 hall.2 x List.mem_cons_self
  rw [step_of_blank hw hx] at hstep
  obtain rfl := Except.ok.inj hstep
  obtain ⟨w'', hrest, -, hdata⟩ :=
    takeText_spec (Nat.lt_succ_self r.cursor.rest.length) r.frames true []
  obtain rfl : w'' = x :: w' := (List.append_left_inj _).1 (hrest.symm.trans hw)
  refine ⟨_ :: children, congrArg (appendNode _) hframes, fun n hn => ?_⟩
  rcases List.mem_cons.1 hn with rfl | hn
  · show allBlank (String.ofList
      (takeText r.frames (r.cursor.rest.length + 1) true [] r.cursor).1).toList = true
    rw [String.toList_ofList, hdata, List.reverse_nil, List.nil_append, unescaped_of_blank hall.2]
    exact hall.2
  · exact hchildren n hn

theorem Leads.run {bound : Nat} (h : r.Leads s) (hrun : r.run bound = .ok r') : r'.Leads s :=
  invariant_run (fun _ _ h => h.step) h hrun

end Reader

/-! ### Templates -/

namespace Template

/-- The front matter leads in the tree of a template that was read. -/
theorem leads_of_read {source : String} {t : Template} (h : Template.read source = .ok t) :
    t.source = source ∧ t.root.isConfig = false ∧ Leads source.toList t.root.childNodes := by
  obtain ⟨r, children, hrun, hframes, rfl⟩ := read_eq_ok h
  have hleads := (Reader.leads_ofText source.toList).run hrun
  refine ⟨rfl, Node.isConfig_number _ 0, ?_⟩
  rw [(Node.number_eq _ 0).2.1]
  exact ((Frame.led_of_root rfl).1
    (hleads.led (.root children) (hframes ▸ List.mem_cons_self))).number 1

/-- A template that was read has no front matter, or a single node of it: the one that is found,
which stands in the source and has the fields that its text sets. -/
theorem configs_of_read {source : String} {t : Template} (h : Template.read source = .ok t) :
    t.root.nodes.filter Node.isConfig = t.configNode?.toList ∧
      ∀ n ∈ t.configNode?, ∃ info fields raw, n = .config info (.object fields) raw ∧
        ConfigReader.Gives raw.toList fields ∧ ∃ c, (Cursor.ofText t.source.toList).LeadsTo c ∧
          info.start = c.offset ∧ c.FrontMatter info.stop raw.toList := by
  obtain ⟨hsource, hroot, hleads⟩ := leads_of_read h
  -- the root itself is no front matter
  have hconfigs : t.root.nodes.filter Node.isConfig = configsAll t.root.childNodes := by
    rw [Node.nodes_eq, List.filter_cons, hroot, if_neg Bool.false_ne_true,
      Node.configsAll_eq_filter]
  rw [hconfigs]
  rcases hleads with hnil | ⟨blanks, info, fields, raw, others, hnodes, hblanks, hothers,
    hfields, hplace⟩
  -- nothing was led into the root as front matter
  · have hnone : t.configNode? = none := by
      refine Option.eq_none_iff_forall_not_mem.2 fun n hn => ?_
      obtain ⟨hmem, hconfig⟩ := mem_of_configNode? hn
      have hno := Node.configsAll_eq_nil.1 hnil n
        (Node.mem_nodesAll.2 ⟨n, hmem, Node.mem_nodes_self n⟩)
      exact Bool.noConfusion (hconfig.symm.trans hno)
    rw [hnil, hnone]
    exact ⟨rfl, nofun⟩
  -- or it was led behind white space, and what follows it has none
  · have hnode := configNode?_eq_some hnodes hblanks
    refine ⟨?_, fun n hn => ?_⟩
    · rw [hnode, hnodes, Node.configsAll_append, Node.configsAll_blank hblanks,
        ← List.singleton_append, Node.configsAll_append, hothers]
      rfl
    · obtain rfl := Option.some.inj (hnode.symm.trans hn)
      exact ⟨info, fields, raw, rfl, hfields, hsource ▸ hplace⟩

/-- The fields that the front matter of a template sets: those of its only node of front matter,
which are the ones that the text of this node sets, and none if there is no such node. -/
inductive Configures (t : Template) : Fields Json → Prop
  | absent (none : t.root.nodes.filter Node.isConfig = []) : Configures t []
  | given {info : NodeInfo} {fields : Fields Json} {raw : String}
    (only : t.root.nodes.filter Node.isConfig = [.config info (.object fields) raw])
    (gives : ConfigReader.Gives raw.toList fields) : Configures t fields

/-- The front matter of a template sets no other fields. -/
theorem Configures.unique {t : Template} {fields fields' : Fields Json} (h : t.Configures fields)
    (h' : t.Configures fields') : fields = fields' := by
  cases h with
  | absent hnone =>
    cases h' with
    | absent => rfl
    | given only => exact nomatch hnone.symm.trans only
  | given honly =>
    cases h' with
    | absent hnone => exact nomatch hnone.symm.trans honly
    | given honly' =>
      obtain ⟨hnode, -⟩ := List.cons.inj (honly.symm.trans honly')
      exact Json.object.inj (Node.config.inj hnode).2.1

/-- The configuration of a template that was read is what its front matter sets. -/
theorem configures_of_read {source : String} {t : Template} (h : Template.read source = .ok t) :
    t.Configures t.configFields := by
  obtain ⟨hconfigs, hfound⟩ := configs_of_read h
  cases hnode : t.configNode? with
  | none =>
    rw [hnode] at hconfigs
    rw [configFields, config?, hnode]
    exact .absent hconfigs
  | some n =>
    obtain ⟨info, fields, raw, rfl, hfields, -⟩ := hfound n hnode
    rw [hnode] at hconfigs
    rw [configFields, config?, hnode]
    exact .given hconfigs hfields

/-- A template that was read has at most one node of front matter, the one that is found.  If there
is one, it is directly in the root; only white space is in front of it, its text is what stands
between its first line and the next delimiter line, and line breaks and the body are all that
follows.  If there is none, the body is the whole source. -/
theorem frontMatter_of_read {source : String} {t : Template} (h : Template.read source = .ok t) :
    t.source = source ∧ t.root.nodes.filter Node.isConfig = t.configNode?.toList ∧
      (t.configNode? = none → t.body = source) ∧
      ∀ n ∈ t.configNode?, n ∈ t.root.childNodes ∧
        ∃ lead opening raw closing breaks, t.Divides n lead opening raw closing breaks := by
  obtain ⟨hsource, -, -⟩ := leads_of_read h
  obtain ⟨hconfigs, hfound⟩ := configs_of_read h
  have hbody : t.configNode? = none → t.body = source := by
    intro hnone
    rw [body, bodyOf, hnone, hsource]
  refine ⟨hsource, hconfigs, hbody, fun n hn => ⟨(mem_of_configNode? hn).1, ?_⟩⟩
  obtain ⟨info, fields, raw, rfl, -, c, hc, hstart, hmatter⟩ := hfound n hn
  obtain ⟨opening, closing, breaks, hdivides⟩ := divides_of_frontMatter hc hstart hmatter hn
  exact ⟨_, opening, _, closing, breaks, hdivides⟩

end Template

end

/-- An empty line may be in front of the front matter; the delimiter line behind it starts the body.
-/
theorem Template.frontMatter_of_read_behindLine :
    ∃ t n, Template.read "\n---\n---\n\n---" = .ok t ∧ t.root.nodes.filter Node.isConfig = [n] ∧
      t.body = "---" ∧ n.info.start = 1 ∧ n.info.stop = 8 ∧
      ∃ lead opening raw closing breaks, t.Divides n lead opening raw closing breaks := by
  have hcheck : (Template.read "\n---\n---\n\n---").toOption.map (fun t =>
      (t.body, t.configNode?.map fun n => (n.info.start, n.info.stop))) =
        some ("---", some (1, 8)) := by
    decide +kernel
  rcases hread : Template.read "\n---\n---\n\n---" with problem | t
  · rw [hread] at hcheck
    exact absurd hcheck.symm (Option.some_ne_none _)
  obtain ⟨-, hnodes, -, hdivides⟩ := frontMatter_of_read hread
  rw [hread] at hcheck
  obtain ⟨hbody, hnode⟩ := Prod.mk.inj (Option.some.inj hcheck)
  obtain ⟨n, hn, hplace⟩ := Option.map_eq_some_iff.1 hnode
  obtain ⟨hstart, hstop⟩ := Prod.mk.inj hplace
  rw [hn] at hnodes
  exact ⟨t, n, rfl, hnodes, hbody, hstart, hstop, (hdivides n hn).2⟩

end PromptMarkup

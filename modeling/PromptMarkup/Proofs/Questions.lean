/-
How a walk that is resumed comes to the step that waits for its response.

* `Echoes` — a part of a walk that does nothing besides another one;
* `adds` — the law of a part of a walk that only adds events of one kind;
* `Question` — a step that waits, and the parts of blocks that it is in;
* `Question.Follows` — a walk takes the response for that step, or goes into the items of a loop
  whose `else` part the step is in;
* `Node.replies` — there is no other way for a walk that goes on where another one paused.

Design notes: nothing is assumed of the template.  A loop without items records no decision, so that
its items are evaluated again when it is resumed, and whether there are any then is told by the
journal: a walk that goes into the first iteration leaves an event.
-/
import PromptMarkup.Proofs.Poised

namespace PromptMarkup

open PromptMarkup.Computation Walking

/-! ### Parts that do nothing else -/

/-- Two runs that do the same, as far as it can be told afterwards. -/
structure Echoes {α β : Type} (r : Except Interrupt α × Walk) (r' : Except Interrupt β × Walk) :
    Prop where
  failed : ∀ p, r.1 = .error (.failed p) → r'.1 = .error (.failed p)
  messages : r'.2.messages = r.2.messages
  journal : r'.2.journal = r.2.journal

namespace Walking

variable {w : Walk} {act : Walking Unit}

theorem echoes_inCopy : Echoes (runFrom w act) (runFrom w (inCopy act)) := by
  rcases hact : runFrom w act with ⟨e | ⟨⟩, t⟩
  · rw [runFrom_inCopy_error hact]
    exact ⟨fun _ h => h, rfl, rfl⟩
  · rw [runFrom_inCopy_ok hact]
    exact ⟨fun _ h => h, rfl, rfl⟩

theorem echoes_entering {turn : Turn} :
    Echoes (runFrom (entered w turn) act) (runFrom w (entering turn act)) := by
  rcases hact : runFrom (entered w turn) act with ⟨e | ⟨⟩, t⟩
  · rw [runFrom_entering_error hact]
    exact ⟨fun _ h => h, rfl, rfl⟩
  · rw [runFrom_entering_ok hact]
    exact ⟨fun _ h => h, rfl, rfl⟩

theorem echoes_onPause {record : Walk → Walk} (hmessages : ∀ t, (record t).messages = t.messages)
    (hjournal : ∀ t, (record t).journal = t.journal) :
    Echoes (runFrom w act) (runFrom w (onPause record act)) := by
  rcases hact : runFrom w act with ⟨(config | p) | ⟨⟩, t⟩
  · rw [runFrom_onPause_paused hact]
    exact ⟨fun _ h => (by simp at h), hmessages t, hjournal t⟩
  · rw [runFrom_onPause_failed hact]
    exact ⟨fun _ h => h, rfl, rfl⟩
  · rw [runFrom_onPause_ok hact]
    exact ⟨fun _ h => h, rfl, rfl⟩

theorem echoes_within {there back : Walk → Walk} (hmessages : ∀ t, (back t).messages = t.messages)
    (hjournal : ∀ t, (back t).journal = t.journal) :
    Echoes (runFrom (there w) act) (runFrom w (within there back act)) := by
  rw [runFrom_within]
  exact ⟨fun _ h => h, hmessages _, hjournal _⟩

theorem echoes_inArguments {flag : Bool} :
    Echoes (runFrom { w with inArguments := flag } act) (runFrom w (inArguments flag act)) := by
  rw [runFrom_inArguments]
  exact ⟨fun _ h => h, rfl, rfl⟩

theorem echoes_captured :
    Echoes (runFrom { w with stray := "" } act) (runFrom w (captured act)) := by
  rw [runFrom_captured]
  refine ⟨fun p h => ?_, rfl, rfl⟩
  dsimp only
  rw [h]
  rfl

theorem echoes_visiting {id : Nat} {path : IterationPath}
    (h : w.statuses.completed id path = false) :
    Echoes (runFrom (w.enter id path) act) (runFrom w (visiting id path act)) := by
  rcases hact : runFrom (w.enter id path) act with ⟨(config | p) | ⟨⟩, t⟩
  · rw [runFrom_visiting_paused h hact]
    exact ⟨fun _ h => (by simp at h), rfl, rfl⟩
  · rw [runFrom_visiting_failed h hact]
    exact ⟨fun _ h => h, rfl, rfl⟩
  · rw [runFrom_visiting_ok h hact]
    exact ⟨fun _ h => h, rfl, rfl⟩

end Walking

/-! ### What is added -/

/-- Messages were added, and events of one kind. -/
structure Adds (P : Event → Prop) (w t : Walk) : Prop where
  messages : w.messages <+: t.messages
  journal : ∃ new, t.journal = new ++ w.journal ∧ ∀ e ∈ new, P e

section Adding

variable {P Q : Event → Prop} {u v w t : Walk}

theorem Adds.trans (h : Adds P u v) (h' : Adds P v w) : Adds P u w := by
  obtain ⟨new, hnew, hP⟩ := h.journal
  obtain ⟨new', hnew', hP'⟩ := h'.journal
  refine ⟨h.messages.trans h'.messages, new' ++ new, ?_, fun e he => ?_⟩
  · rw [hnew', hnew, List.append_assoc]
  · rcases List.mem_append.1 he with he | he
    · exact hP' e he
    · exact hP e he

theorem Adds.mono (h : Adds P w t) (hPQ : ∀ e, P e → Q e) : Adds Q w t := by
  obtain ⟨new, hnew, hP⟩ := h.journal
  exact ⟨h.messages, new, hnew, fun e he => hPQ e (hP e he)⟩

theorem Progress.adds {ids : List Nat} {path : IterationPath} (h : Progress ids path w t) :
    Adds (Event.Inside ids path) w t := by
  obtain ⟨new, hnew, hinside, -⟩ := h.journal
  exact ⟨h.messages, new, hnew, hinside⟩

/-- The law of a part of a walk that only adds events of one kind. -/
def adds (P : Event → Prop) : Law Interrupt Walk where
  done := Adds P
  stop w _ t := Adds P w t
  refl _ := ⟨List.prefix_rfl, [], rfl, fun _ he => nomatch he⟩
  trans := Adds.trans
  back := Adds.trans

theorem Adds.of_respects {α : Type} {x : Walking α} (h : RespectsAt (adds P) w x) :
    Adds P w (runFrom w x).2 := by
  rcases hx : runFrom w x with ⟨e | a, t⟩
  · exact h.stop hx
  · exact h.done hx

theorem adds_of_progress {α : Type} {ids : List Nat} {path : IterationPath} {steps still : Prop}
    {x : Walking α} (h : Respects (progress ids path steps still) x)
    (hP : ∀ e, e.Inside ids path → P e) : Respects (adds P) x :=
  Respects.weaken h (fun _ _ hd => hd.1.adds.mono hP) fun _ _ _ hs => hs.1.adds.mono hP

theorem Adds.echo {α β : Type} {r : Except Interrupt α × Walk} {r' : Except Interrupt β × Walk}
    (h : Adds P w r.2) (he : Echoes r r') : Adds P w r'.2 :=
  ⟨he.messages ▸ h.messages, he.journal ▸ h.journal⟩

theorem Adds.bind {α β : Type} {x : Walking α} {f : α → Walking β} (h : Adds P w (runFrom u x).2)
    (hf : ∀ a, Respects (adds P) (f a)) : Adds P w (runFrom u (x >>= f)).2 := by
  rcases hx : runFrom u x with ⟨e | a, t⟩
  · rw [hx] at h
    rw [runFrom_bind_error hx]
    exact h
  · rw [hx] at h
    rw [runFrom_bind_ok hx]
    exact h.trans (Adds.of_respects (hf a t))

/-- A part of a walk adds what a part of it adds. -/
theorem adds_of_echoes {x y : Walking Unit} (h : Echoes (runFrom u x) (runFrom w y))
    (hu : Adds P w u) (hx : RespectsAt (adds P) u x) : RespectsAt (adds P) w y := by
  have hy : Adds P w (runFrom w y).2 := (hu.trans (Adds.of_respects hx)).echo h
  unfold RespectsAt
  rcases hrun : runFrom w y with ⟨e | a, t⟩
  · rw [hrun] at hy
    exact hy
  · rw [hrun] at hy
    exact hy

/-- Events of a loop, or of what is inside of it in its iterations from the `i`-th on. -/
def FromIteration (id : Nat) (children : List Node) (path : IterationPath) (i : Nat) (e : Event) :
    Prop :=
  e.Inside [id] path ∨ ∃ j, i ≤ j ∧ e.Inside (Node.idsAll children) (path ++ [j])

section Loops

variable {setting : Setting} {id i : Nat} {path : IterationPath} {header : ForHeader}
  {items : List Value} {children : List Node}

theorem adds_iteration (resumed : Option Value) (item : Value) :
    Respects (adds (FromIteration id children path i)) (iteration setting id path header items
      (fun inner => Node.walkAll setting children inner) i resumed item) := by
  -- what the iteration does before its body writes into the block's own status only
  have hown : ∀ {α : Type} {x : Walking α}, Respects (silent id path False False) x →
      Respects (adds (FromIteration id children path i)) x := by
    intro α x hx
    have hprogress : Respects (progress [id] path False False) x :=
      progress_of_silent hx (List.mem_singleton.2 rfl) fun h => h
    exact adds_of_progress hprogress fun _ he => .inl he
  intro w
  refine adds_of_echoes echoes_entering ⟨List.prefix_rfl, [_], rfl, fun e he => ?_⟩
    (adds_of_echoes echoes_inCopy ((adds _).refl _) ?_)
  · obtain rfl := List.mem_singleton.1 he
    exact .inl ⟨List.mem_singleton.2 rfl, List.prefix_rfl⟩
  · refine Respects.bind (hown (silent_setVariable _ _)) (fun _ => ?_) _
    refine Respects.bind (hown ?_) fun v w => ?_
    · exact silent_weaken (silent_setIndex setting id path header i resumed) List.prefix_rfl
        False.elim False.elim
    · refine adds_of_echoes (echoes_onPause (fun _ => rfl) fun _ => rfl) ((adds _).refl _) ?_
      exact adds_of_progress (Node.respects_walkAll children (path ++ [i]))
        (fun e he => .inr ⟨i, Nat.le_refl i, he⟩) w

theorem adds_iterations (i : Nat) (resumed : Option Value) (rest : List Value) :
    Respects (adds (FromIteration id children path i)) (iterations setting id path header items
      (fun inner => Node.walkAll setting children inner) i resumed rest) := by
  induction rest generalizing i resumed with
  | nil => exact Respects.pure _
  | cons item rest ih =>
    have hlater : ∀ e, FromIteration id children path (i + 1) e →
      FromIteration id children path i e := by
      rintro e (he | ⟨j, hj, he⟩)
      · exact .inl he
      · exact .inr ⟨j, Nat.le_of_succ_le hj, he⟩
    refine Respects.bind (adds_iteration resumed item) fun _ => ?_
    exact Respects.weaken (ih (i + 1) none) (fun _ _ h => h.mono hlater) fun _ _ _ h =>
      h.mono hlater

end Loops

end Adding

/-! ### Questions -/

/-- The first iteration of the loop that a part belongs to. -/
def Turn.first (turn : Turn) : Turn :=
  { turn with part := .iteration 0 }

/-- A step that waits for its response, and the parts of blocks that it is in. -/
structure Question where
  node : Nat
  path : IterationPath
  turns : List Turn

namespace Question

/-- A walk from `a` waits at `t` for the response to a question. -/
def Asked (q : Question) (a t : Walk) : Prop :=
  t.journal.head? = some (.asked q.node q.path (a.turns ++ q.turns))

/-- The step and the blocks around it are among the given nodes, in the iterations of a path. -/
structure Inside (q : Question) (ids : List Nat) (path : IterationPath) : Prop where
  step : q.node ∈ ids
  below : path <+: q.path
  blocks : ∀ turn ∈ q.turns, turn.block ∈ ids ∧ path <+: turn.path

/-- The question as it is told outside of a part of a block. -/
def behind (q : Question) (turn : Turn) : Question :=
  { q with turns := turn :: q.turns }

/-- The response was taken for the question, and before all other messages; the loops whose `else`
parts the step is in have no items. -/
structure Heard (q : Question) (response : String) (new : List Event) (c s : Walk) : Prop where
  messages : c.messages ++ [.ofResponse response] <+: s.messages
  answered : .answered q.node q.path (c.turns ++ q.turns) response ∈ new
  same : ∀ turn ∈ q.turns, turn.part = .noItems → .entered turn.first ∉ new

/-- A loop whose `else` part the step is in has items, and nobody has answered the question. -/
structure Diverted (q : Question) (new : List Event) : Prop where
  items : ∃ turn ∈ q.turns, turn.part = .noItems ∧ .entered turn.first ∈ new
  unanswered : ∀ turns response, .answered q.node q.path turns response ∉ new

/-- A run from `c` takes the response for the question or is diverted, unless it fails. -/
def Follows {α : Type} (q : Question) (response : String) (ids : List Nat) (path : IterationPath)
    (c : Walk) (r : Except Interrupt α × Walk) : Prop :=
  (∀ p, r.1 ≠ .error (.failed p)) → ∃ new, r.2.journal = new ++ c.journal ∧
    (∀ e ∈ new, e.Inside ids path) ∧ (q.Heard response new c r.2 ∨ q.Diverted new)

variable {q : Question} {ids ids' : List Nat} {path path' : IterationPath} {a s t c : Walk}
  {turn : Turn} {response : String}

theorem Inside.weaken (h : q.Inside ids path) (hids : ids ⊆ ids') (hpath : path' <+: path) :
    q.Inside ids' path' := by
  refine ⟨hids h.step, hpath.trans h.below, fun turn hturn => ?_⟩
  obtain ⟨hid, hturn⟩ := h.blocks turn hturn
  exact ⟨hids hid, hpath.trans hturn⟩

theorem Inside.behind (h : q.Inside ids path) (hid : turn.block ∈ ids)
    (hpath : path <+: turn.path) :
    (q.behind turn).Inside ids path := by
  refine ⟨h.step, h.below, fun other hother => ?_⟩
  rcases List.mem_cons.1 hother with rfl | hother
  · exact ⟨hid, hpath⟩
  · exact h.blocks other hother

theorem Asked.behind (h : q.Asked (entered a turn) t) : (q.behind turn).Asked a t := by
  refine Eq.trans h ?_
  rw [entered, List.append_assoc]
  rfl

/-- Whether a question is asked depends on the parts of blocks that the walk is in. -/
theorem Asked.of_turns (h : q.Asked s t) (hturns : s.turns = a.turns) : q.Asked a t := by
  unfold Asked at *
  rw [h, hturns]

section Follows

variable {α β : Type} {r : Except Interrupt α × Walk} {r' : Except Interrupt β × Walk}
  {x : Walking α} {f : α → Walking β}

theorem Follows.echo (h : q.Follows response ids path c r) (he : Echoes r r') :
    q.Follows response ids path c r' := by
  intro hr
  obtain ⟨new, hnew, hinside, hends⟩ := h fun p hp => hr p (he.failed p hp)
  refine ⟨new, he.journal.trans hnew, hinside, hends.imp_left fun hheard => ?_⟩
  exact ⟨he.messages ▸ hheard.messages, hheard.answered, hheard.same⟩

/-- A run that goes on from `s` is a run from `c`, if only evaluations are in between. -/
theorem Follows.before (h : q.Follows response ids path s r) {early : List Event}
    (hjournal : s.journal = early ++ c.journal)
    (hearly : ∀ e ∈ early, e.isLocal = true ∧ e.Inside ids path)
    (hmessages : s.messages = c.messages)
    (hturns : s.turns = c.turns) : q.Follows response ids path c r := by
  have hlocal : ∀ e ∈ early, e.isLocal = true := fun e he => (hearly e he).1
  intro hr
  obtain ⟨new, hnew, hinside, hends⟩ := h hr
  refine ⟨new ++ early, ?_, fun e he => ?_, ?_⟩
  -- what was written before, `early`, is local: it neither answers a step nor takes a branch
  · rw [hnew, hjournal, List.append_assoc]
  · rcases List.mem_append.1 he with he | he
    · exact hinside e he
    · exact (hearly e he).2
  · rcases hends with hheard | hdiverted
    · refine .inl ⟨?_, ?_, fun turn hturn hpart hmem => ?_⟩
      · rw [← hmessages]
        exact hheard.messages
      · rw [← hturns]
        exact List.mem_append_left _ hheard.answered
      · rcases List.mem_append.1 hmem with hmem | hmem
        · exact hheard.same turn hturn hpart hmem
        · exact nomatch hlocal _ hmem
    · obtain ⟨turn, hturn, hpart, hmem⟩ := hdiverted.items
      refine .inr ⟨⟨turn, hturn, hpart, List.mem_append_left _ hmem⟩, fun turns response hmem => ?_⟩
      rcases List.mem_append.1 hmem with hmem | hmem
      · exact hdiverted.unanswered turns response hmem
      · exact nomatch hlocal _ hmem

/-- A run from a state in which the same was done. -/
theorem Follows.of_same (h : q.Follows response ids path s r) (hjournal : s.journal = c.journal)
    (hmessages : s.messages = c.messages) (hturns : s.turns = c.turns) :
    q.Follows response ids path c r := by
  have hearly : s.journal = [] ++ c.journal := hjournal
  exact h.before hearly (fun e he => nomatch e, he) hmessages hturns

/-- What happens elsewhere behind a run that takes the response does not matter. -/
theorem Follows.bind (h : q.Follows response ids path c (runFrom s x)) (hq : q.Inside ids path)
    (hids : ids ⊆ ids') (hpath : path' <+: path)
    (hf : ∀ a, Respects (adds fun e => e.Inside ids' path' ∧ ¬ e.Inside ids path) (f a)) :
    q.Follows response ids' path' c (runFrom s (x >>= f)) := by
  have hwide : ∀ e : Event, e.Inside ids path → e.Inside ids' path' :=
    fun e he => ⟨hids he.1, hpath.trans he.2⟩
  rcases hx : runFrom s x with ⟨e | a, t⟩
  -- the part pauses already, so what follows never runs
  · rw [hx] at h
    rw [runFrom_bind_error hx]
    intro hr
    obtain ⟨new, hnew, hinside, hends⟩ := h fun p hp => hr p (by rw [Except.error.inj hp])
    refine ⟨new, hnew, fun e he => hwide e (hinside e he), hends.imp_left fun hheard => ?_⟩
    exact ⟨hheard.messages, hheard.answered, hheard.same⟩
  -- the part completes, and what follows writes only outside the question's subtree
  · rw [hx] at h
    rw [runFrom_bind_ok hx]
    intro hr
    obtain ⟨new, hnew, hinside, hends⟩ := h fun p hp => nomatch hp
    obtain ⟨hmessages, later, hlater, haway⟩ := Adds.of_respects (hf a t)
    refine ⟨later ++ new, ?_, fun e he => ?_, ?_⟩
    · rw [hlater, hnew, List.append_assoc]
    · rcases List.mem_append.1 he with he | he
      · exact (haway e he).1
      · exact hwide e (hinside e he)
    · rcases hends with hheard | hdiverted
      · refine .inl ⟨hheard.messages.trans hmessages, List.mem_append_right _ hheard.answered,
          fun turn hturn hpart hmem => ?_⟩
        rcases List.mem_append.1 hmem with hmem | hmem
        · exact (haway _ hmem).2 (hq.blocks turn hturn)
        · exact hheard.same turn hturn hpart hmem
      · obtain ⟨turn, hturn, hpart, hmem⟩ := hdiverted.items
        refine .inr ⟨⟨turn, hturn, hpart, List.mem_append_right _ hmem⟩,
          fun turns response hmem => ?_⟩
        rcases List.mem_append.1 hmem with hmem | hmem
        · exact (haway _ hmem).2 ⟨hq.step, hq.below⟩
        · exact hdiverted.unanswered turns response hmem

/-- What holds among some nodes holds among more of them. -/
theorem Follows.weaken (h : q.Follows response ids path c r) (hids : ids ⊆ ids')
    (hpath : path' <+: path) : q.Follows response ids' path' c r := by
  intro hr
  obtain ⟨new, hnew, hinside, hends⟩ := h hr
  exact ⟨new, hnew, fun e he => ⟨hids (hinside e he).1, hpath.trans (hinside e he).2⟩, hends⟩

/-- A run in a part of a block is a run of the block. -/
theorem Follows.behind (h : q.Follows response ids path (entered c turn) r)
    (hblocks : ∀ other ∈ q.turns, other.block ≠ turn.block)
    (hnot : turn.part = .noItems → turn.block ∉ ids) (hids : ids ⊆ ids') (hpath : path' <+: path)
    (hid : turn.block ∈ ids') (hturn : path' <+: turn.path) :
    (q.behind turn).Follows response ids' path' c r := by
  intro hr
  obtain ⟨new, hnew, hinside, hends⟩ := h hr
  refine ⟨new ++ [.entered turn], ?_, fun e he => ?_, ?_⟩
  · rw [hnew, List.append_assoc]
    rfl
  · rcases List.mem_append.1 he with he | he
    · exact ⟨hids (hinside e he).1, hpath.trans (hinside e he).2⟩
    · obtain rfl := List.mem_singleton.1 he
      exact ⟨hid, hturn⟩
  -- the first turn of the longer question is `turn` itself, which was just entered
  · rcases hends with hheard | hdiverted
    · refine .inl ⟨hheard.messages, ?_, fun other hmem hpart hentered => ?_⟩
      · have hanswered := hheard.answered
        rw [entered, List.append_assoc] at hanswered
        exact List.mem_append_left _ hanswered
      · rcases List.mem_cons.1 hmem with rfl | hmem
        · rcases List.mem_append.1 hentered with hentered | hentered
          · exact hnot hpart (hinside _ hentered).1
          · have heq : other.first = other := by simpa using hentered
            rw [← heq] at hpart
            cases hpart
        · rcases List.mem_append.1 hentered with hentered | hentered
          · exact hheard.same other hmem hpart hentered
          · have heq : other.first = turn := by simpa using hentered
            have hblock : other.first.block = turn.block := congrArg Turn.block heq
            exact hblocks other hmem hblock
    -- a question whose block found items elsewhere is still so behind one more turn
    · obtain ⟨other, hmem, hpart, hentered⟩ := hdiverted.items
      refine .inr ⟨⟨other, List.mem_cons_of_mem _ hmem, hpart, List.mem_append_left _ hentered⟩,
        fun turns response hanswered => ?_⟩
      rcases List.mem_append.1 hanswered with hanswered | hanswered
      · exact hdiverted.unanswered turns response hanswered
      · cases List.mem_singleton.1 hanswered

/-- An evaluation in front of a run fails, or the run goes on behind it. -/
theorem Follows.silent {id : Nat} {sure still : Prop} (hx : Respects (silent id path sure still) x)
    (hid : id ∈ ids)
    (h : ∀ a s, runFrom c x = (.ok a, s) → Silent id path c s →
      q.Follows response ids path s (runFrom s (f a))) :
    q.Follows response ids path c (runFrom c (x >>= f)) := by
  rcases hrun : runFrom c x with ⟨e | a, s⟩
  · obtain ⟨-, p, rfl, -⟩ := (hx c).stop hrun
    rw [runFrom_bind_error hrun]
    exact fun hr => absurd rfl (hr p)
  · rw [runFrom_bind_ok hrun]
    have hs : Silent id path c s := ((hx c).done hrun).1
    obtain ⟨early, hjournal, hearly⟩ := hs.journal
    refine (h a s hrun hs).before hjournal (fun e he => ?_) ?_ ?_
    · obtain ⟨hevaluation, rfl, hpath⟩ := hearly e he
      exact ⟨Event.isLocal_of_isEvaluation hevaluation, hid, hpath⟩
    · rw [hs.same]
    · rw [hs.same]

end Follows

end Question

/-! ### Nodes -/

namespace Node

variable {setting : Setting} {path : IterationPath} {config : Fields Json} {a s t u x : Walk}
  {info : NodeInfo} {children : List Node}

/-- A walk that went from `a` to `t` and paused asks a question, and a walk that goes on where it
paused follows it in the given part. -/
def Replies (ids : List Nat) (path : IterationPath) (a t : Walk) (x : Walking Unit) : Prop :=
  ∃ q : Question, q.Asked a t ∧ q.Inside ids path ∧
    ∀ {response rest held c}, Poised (response :: rest) held ids a t c →
      q.Follows response ids path c (runFrom c x)

/-- The same for what a node does. -/
def RepliesInside (setting : Setting) (n : Node) (path : IterationPath) (a s : Walk) : Prop :=
  ∃ q : Question, q.Asked a s ∧ q.Inside n.ids path ∧
    ∀ {response rest held c}, Entered (response :: rest) held n path a s c →
      q.Follows response n.ids path c (runFrom c (n.act setting path))

/-- The claim about a node: whenever a walk pauses in it, the walk that goes on follows the
question. -/
def RepliesIn (setting : Setting) (n : Node) : Prop :=
  ∀ {path config a t}, runFrom a (n.walk setting path) = (.error (.paused config), t) →
    Replies n.ids path a t (n.walk setting path)

theorem replies_among {ns : List Node} (hnodup : (idsAll ns).Nodup)
    (ih : ∀ m ∈ ns, RepliesIn setting m) (ha : PausesAmong setting path config ns a t) :
    Replies (idsAll ns) path a t (walkAll setting ns path) := by
  obtain ⟨before, m, after, s, rfl, hs, hm⟩ := ha
  have hmem : m ∈ before ++ m :: after := List.mem_append_right _ List.mem_cons_self
  obtain ⟨q, hasked, hinside, hfollows⟩ := ih m hmem hm
  refine ⟨q, hasked.of_turns (finish_of_walkAll hs).turns,
    hinside.weaken (ids_subset_idsAll hmem) List.prefix_rfl, fun h => ?_⟩
  obtain ⟨hpoised, hskip⟩ := among_of_poised h hs hm
  rw [walkAll_append, runFrom_bind_ok hskip]
  refine (hfollows hpoised).bind hinside (ids_subset_idsAll hmem) List.prefix_rfl fun _ => ?_
  -- the nodes behind are others
  refine adds_of_progress (respects_walkAll after path) fun e he => ⟨⟨?_, he.2⟩, fun hmine => ?_⟩
  · rw [idsAll_append, idsAll_cons]
    exact List.mem_append_right _ (List.mem_append_right _ he.1)
  · rw [idsAll_append, idsAll_cons] at hnodup
    have hnodup' := (List.nodup_append.1 hnodup).2.1
    exact (List.nodup_append.1 hnodup').2.2 e.node hmine.1 e.node he.1 rfl

/-! ### The ways to pause -/

theorem replies_fragment (hnodup : (idsAll children).Nodup)
    (ih : ∀ m ∈ children, RepliesIn setting m) (hs : PausesAmong setting path config children a s) :
    RepliesInside setting (fragment info children) path a s := by
  obtain ⟨q, hasked, hinside, hfollows⟩ := replies_among hnodup ih hs
  have hsub : idsAll children ⊆ (fragment info children).ids :=
    idsAll_childNodes_subset (fragment info children)
  refine ⟨q, hasked, hinside.weaken hsub List.prefix_rfl, fun h => ?_⟩
  exact ((hfollows h.poised).echo echoes_inCopy).weaken hsub List.prefix_rfl

variable {condition : Expr} {elseIf : Bool} {otherwise : Option Node}

/-- The second walk goes into the branch that the first has taken. -/
theorem replies_branch {taken : Bool} {ids : List Nat}
    (hself : info.id ∉ ids) (hsub : ids.Sublist (idsAll (children ++ otherwise.toList)))
    (hcondition : runFrom a (takesBranch setting info.id path condition) = (.ok taken, u))
    (h : Replies ids path (entered u ⟨info.id, path, .branch taken⟩) t
      (if taken then inCopy (walkAll setting children path) else walkElse setting otherwise path)) :
    RepliesInside setting (ifBlock info condition elseIf children otherwise) path a
      { t with statuses := t.statuses.decide info.id (.branch taken) } := by
  obtain ⟨q, hasked, hinside, hfollows⟩ := h
  have hsilent := ((silent_takesBranch setting info.id path condition a).done hcondition).1
  have hturns : u.turns = a.turns := by rw [hsilent.same]
  have hids : ids ⊆ (ifBlock info condition elseIf children otherwise).ids :=
    fun id hid => idsAll_childNodes_subset _ (hsub.subset hid)
  have hid : info.id ∈ (ifBlock info condition elseIf children otherwise).ids := id_mem_ids _
  refine ⟨q.behind ⟨info.id, path, .branch taken⟩, (Question.Asked.behind hasked).of_turns hturns,
    (hinside.weaken hids List.prefix_rfl).behind hid List.prefix_rfl,
    fun {response rest held c} h => ?_⟩
  -- resumed, the block decides as it did, since the decision is in its status
  have hc : runFrom c (takesBranch setting info.id path condition) = (.ok taken, c) :=
    runFrom_takesBranch h.decided
  have hpoised := ((h.poised.undecided.advance hsilent.progress hturns).entered
    ⟨info.id, path, .branch taken⟩).sublist hsub
  show Question.Follows _ _ _ _ _ (runFrom c (Walking.ifBlock _ _ _ _ _ _))
  unfold Walking.ifBlock
  rw [runFrom_bind_ok hc]
  refine Question.Follows.echo (Question.Follows.echo ?_ echoes_entering)
    (echoes_onPause (fun _ => rfl) fun _ => rfl)
  -- the block itself is not among the nodes of its branch, where the question lies
  refine (hfollows hpoised).behind (fun other hmem heq => ?_)
    (fun _ => hself) hids List.prefix_rfl hid List.prefix_rfl
  have hblock : other.block = info.id := heq
  exact hself (hblock ▸ (hinside.blocks other hmem).1)

theorem replies_taken
    (hnodup : (ifBlock info condition elseIf children otherwise).ids.Nodup)
    (ih : ∀ m ∈ children, RepliesIn setting m)
    (hcondition : runFrom a (takesBranch setting info.id path condition) = (.ok true, u))
    (ht : PausesAmong setting path config children (entered u ⟨info.id, path, .branch true⟩) t) :
    RepliesInside setting (ifBlock info condition elseIf children otherwise) path a
      { t with statuses := t.statuses.decide info.id (.branch true) } := by
  obtain ⟨hself, hnodup⟩ := List.nodup_cons.1 (ids_eq _ ▸ hnodup)
  have hsub : (idsAll children).Sublist (idsAll (children ++ otherwise.toList)) := by
    rw [idsAll_append]
    exact List.sublist_append_left _ _
  obtain ⟨q, hasked, hinside, hfollows⟩ := replies_among (hnodup.sublist hsub) ih ht
  refine replies_branch (fun hid => hself (hsub.subset hid)) hsub hcondition
    ⟨q, hasked, hinside, fun h => ?_⟩
  rw [if_pos rfl]
  exact (hfollows h).echo echoes_inCopy

theorem replies_passed {m : Node}
    (hnodup : (ifBlock info condition elseIf children (some m)).ids.Nodup)
    (ih : RepliesIn setting m)
    (hcondition : runFrom a (takesBranch setting info.id path condition) = (.ok false, u))
    (ht : runFrom (entered u ⟨info.id, path, .branch false⟩) (m.walk setting path) =
      (.error (.paused config), t)) :
    RepliesInside setting (ifBlock info condition elseIf children (some m)) path a
      { t with statuses := t.statuses.decide info.id (.branch false) } := by
  obtain ⟨hself, hnodup⟩ := List.nodup_cons.1 (ids_eq _ ▸ hnodup)
  have hsub : m.ids.Sublist (idsAll (children ++ (some m).toList)) :=
    ids_sublist_idsAll (List.mem_append_right _ (List.mem_singleton.2 rfl))
  obtain ⟨q, hasked, hinside, hfollows⟩ := ih ht
  refine replies_branch (fun hid => hself (hsub.subset hid)) hsub hcondition
    ⟨q, hasked, hinside, fun h => ?_⟩
  rw [if_neg Bool.false_ne_true]
  exact hfollows h

/-! ### Loops -/

section Loops

variable {header : ForHeader} {items before later : List Value} {item : Value} {first i : Nat}
  {resumed v : Option Value}

/-- The iterations behind another one are elsewhere. -/
theorem fromIteration_elsewhere {id : Nat} {ids : List Nat} {e : Event} (hid : id ∈ ids)
    (hids : idsAll children ⊆ ids) (hnot : id ∉ idsAll children)
    (h : FromIteration id children path (i + 1) e) :
    e.Inside ids path ∧ ¬ e.Inside (idsAll children) (path ++ [i]) := by
  rcases h with h | ⟨j, hj, h⟩
  · have hnode : e.node = id := List.mem_singleton.1 h.1
    exact ⟨⟨hnode ▸ hid, h.2⟩, fun hmine => hnot (hnode ▸ hmine.1)⟩
  · refine ⟨⟨hids h.1, (List.prefix_append _ _).trans h.2⟩, fun hmine => ?_⟩
    have heq : path ++ [i] = path ++ [j] :=
      (List.prefix_of_prefix_length_le hmine.2 h.2 (by simp)).eq_of_length (by simp)
    have hij : i = j := by simpa using heq
    omega

/-- The second walk goes into the iteration in which the first paused. -/
theorem replies_iteration
    (hnodup : (forBlock info header children otherwise).ids.Nodup)
    (ih : ∀ m ∈ children, RepliesIn setting m) (hnames : FreeIn header a.scope)
    (hloop : runFrom a (takeItems setting info.id path header.iterable) =
      (.ok ⟨items, first, resumed⟩, s))
    (hitems : items.drop first = before ++ item :: later)
    (hbefore : runFrom s (iterations setting info.id path header items
      (fun inner => walkAll setting children inner) first resumed before) = (.ok (), u))
    (hindex : runFrom (begun u ⟨info.id, path, .iteration (first + before.length)⟩ header.item item)
      (setIndex setting info.id path header (first + before.length)
        (if before.isEmpty then resumed else none)) = (.ok v, x))
    (ht : PausesAmong setting (path ++ [first + before.length]) config children x t) :
    RepliesInside setting (forBlock info header children otherwise) path a
      { t with statuses :=
          t.statuses.decide info.id (.iteration items (first + before.length) v) } := by
  obtain ⟨hself, hnodup⟩ := List.nodup_cons.1 (ids_eq _ ▸ hnodup)
  have hsub : (idsAll children).Sublist (idsAll (children ++ otherwise.toList)) := by
    rw [idsAll_append]
    exact List.sublist_append_left _ _
  have hids : idsAll children ⊆ (forBlock info header children otherwise).ids :=
    fun id hid => idsAll_childNodes_subset _ (hsub.subset hid)
  have hid : info.id ∈ (forBlock info header children otherwise).ids := id_mem_ids _
  have hnot : info.id ∉ idsAll children := fun hmem => hself (hsub.subset hmem)
  obtain ⟨q, hasked, hinside, hfollows⟩ := replies_among (hnodup.sublist hsub) ih ht
  -- the first walk comes to the iteration in which it pauses
  have hs := ((silent_takeItems setting info.id path header.iterable a).done hloop).1
  have hsturns : s.turns = a.turns := by rw [hs.same]
  obtain ⟨hprogress, hfinish⟩ := progress_of_iterations hbefore
  have huturns : u.turns = a.turns := hfinish.turns.trans hsturns
  have hx : Silent info.id path (entered u ⟨info.id, path, .iteration (first + before.length)⟩) x :=
    silent_of_begun hindex
  have hxturns : x.turns =
    (entered u ⟨info.id, path, .iteration (first + before.length)⟩).turns := by
    rw [hx.same]
  have hturn : q.Asked (entered u ⟨info.id, path, .iteration (first + before.length)⟩) t :=
    hasked.of_turns hxturns
  have hpath : path <+: path ++ [first + before.length] := List.prefix_append _ _
  refine ⟨q.behind ⟨info.id, path, .iteration (first + before.length)⟩,
    (Question.Asked.behind hturn).of_turns huturns,
    (hinside.weaken hids hpath).behind hid List.prefix_rfl, fun {response rest held c} h => ?_⟩
  have hdrop : items.drop (first + before.length) = item :: later := by
    rw [← List.drop_drop, hitems, List.drop_left]
  have hpoised := (((((h.poised.undecided.advance hs.progress hsturns).advance hprogress
    hfinish.turns).entered ⟨info.id, path, .iteration (first + before.length)⟩).advance hx.progress
    hxturns).sublist hsub)
  have hcrun : q.Follows response (idsAll children) (path ++ [first + before.length])
      (entered c ⟨info.id, path, .iteration (first + before.length)⟩)
      (runFrom c (Walking.iteration setting info.id path header items
        (fun inner => walkAll setting children inner) (first + before.length) v item)) := by
    have hc : runFrom (entered c ⟨info.id, path, .iteration (first + before.length)⟩) (do
        setVariable header.item item
        setIndex setting info.id path header (first + before.length) v) = (.ok v, { entered c
          ⟨info.id, path, .iteration (first + before.length)⟩ with
            scope := indexed header v (c.scope.set header.item item) }) :=
      runFrom_setIndex_resumed hindex (begun c ⟨info.id, path, .iteration _⟩ header.item item)
    refine Question.Follows.echo (Question.Follows.echo ?_ echoes_inCopy) echoes_entering
    rw [← bind_assoc, runFrom_bind_ok hc]
    refine Question.Follows.echo ?_ (echoes_onPause (fun _ => rfl) fun _ => rfl)
    have hinner : Poised (response :: rest) (info.id :: held) (idsAll children) x t
        { entered c ⟨info.id, path, .iteration (first + before.length)⟩ with
          scope := indexed header v (c.scope.set header.item item) } := { hpoised with }
    exact (hfollows hinner).of_same rfl rfl rfl
  rw [h.iteration hnames hdrop]
  -- the iterations behind are others
  refine (hcrun.bind hinside hids hpath fun _ => ?_).behind (fun other hmem heq => ?_)
    (fun hpart => nomatch hpart) (List.Subset.refl _) List.prefix_rfl hid List.prefix_rfl
  · refine Respects.weaken (adds_iterations _ none later) (fun _ _ h => h.mono ?_)
      fun _ _ _ h => h.mono ?_
    · exact fun e he => fromIteration_elsewhere hid hids hnot he
    · exact fun e he => fromIteration_elsewhere hid hids hnot he
  · have hblock : other.block = info.id := heq
    exact hnot (hblock ▸ (hinside.blocks other hmem).1)

/-- A walk that goes into the items of a loop leaves a question in its `else` part. -/
theorem follows_of_items {q : Question} {response : String} {id : Nat} {ids ids' : List Nat}
    {c : Walk} (hq : q.Inside ids path) (hnot : ∀ other ∈ id :: idsAll children, other ∉ ids)
    (hids : id :: idsAll children ⊆ ids') :
    (q.behind ⟨id, path, .noItems⟩).Follows response ids' path c (runFrom c
      (iterations setting id path header items
        (fun inner => walkAll setting children inner) 0 resumed (item :: later))) := by
  -- the first item and the later ones walk the body, where the question's step is not
  have hbody : Respects (adds (Event.Inside (id :: idsAll children) path)) (inCopy do
      setVariable header.item item
      let v ← setIndex setting id path header 0 resumed
      onPause (fun w => { w with statuses := w.statuses.decide id (.iteration items 0 v) })
        (walkAll setting children (path ++ [0]))) :=
    adds_of_progress (show Respects (progress (id :: idsAll children) path True False) _ from
      progress_inIteration List.mem_cons_self (respects_children id children _) _ _) fun _ he => he
  have hfirst : Adds (Event.Inside (id :: idsAll children) path)
      (entered c ⟨id, path, .iteration 0⟩)
      (runFrom c (Walking.iteration setting id path header items
        (fun inner => walkAll setting children inner) 0 resumed item)).2 :=
    (Adds.of_respects (hbody _)).echo echoes_entering
  have hlater : Respects (adds (Event.Inside (id :: idsAll children) path))
    (iterations setting id path
      header items (fun inner => walkAll setting children inner) 1 none later) :=
    adds_of_progress (show Respects (progress (id :: idsAll children) path True False) _ from
      progress_iterations List.mem_cons_self (respects_children id children) 1 none later)
        fun _ he => he
  obtain ⟨-, new, hnew, hinside⟩ := hfirst.bind fun _ => hlater
  have hturn : (Event.entered ⟨id, path, .iteration 0⟩).Inside ids' path :=
    ⟨hids List.mem_cons_self, List.prefix_rfl⟩
  intro _
  refine ⟨new ++ [.entered ⟨id, path, .iteration 0⟩], ?_, fun e he => ?_, .inr ⟨?_, ?_⟩⟩
  · rw [List.append_assoc]
    exact hnew
  · rcases List.mem_append.1 he with he | he
    · exact ⟨hids (hinside e he).1, (hinside e he).2⟩
    · exact List.mem_singleton.1 he ▸ hturn
  -- the turn diverts: the block now takes an iteration where it had found no items
  · exact ⟨_, List.mem_cons_self, rfl, List.mem_append_right _ (List.mem_singleton.2 rfl)⟩
  · intro turns response hanswered
    rcases List.mem_append.1 hanswered with hanswered | hanswered
    · exact hnot _ (hinside _ hanswered).1 hq.step
    · exact nomatch List.mem_singleton.1 hanswered

/-- A loop without items evaluates them again, and the second walk goes into its `else` part or is
diverted. -/
theorem replies_noItems {m : Node} {loop : Loop}
    (hnodup : (forBlock info header children (some m)).ids.Nodup) (ih : RepliesIn setting m)
    (hnames : FreeIn header a.scope)
    (hloop : runFrom a (takeItems setting info.id path header.iterable) = (.ok loop, s))
    (hempty : loop.items = [])
    (ht : runFrom (entered s ⟨info.id, path, .noItems⟩) (m.walk setting path) =
      (.error (.paused config), t)) :
    RepliesInside setting (forBlock info header children (some m)) path a t := by
  obtain ⟨hself, hnodup⟩ := List.nodup_cons.1 (ids_eq _ ▸ hnodup)
  have hsub : m.ids.Sublist (idsAll (children ++ (some m).toList)) :=
    ids_sublist_idsAll (List.mem_append_right _ (List.mem_singleton.2 rfl))
  have hids : m.ids ⊆ (forBlock info header children (some m)).ids :=
    fun id hid => idsAll_childNodes_subset _ (hsub.subset hid)
  have hid : info.id ∈ (forBlock info header children (some m)).ids := id_mem_ids _
  have hnot : info.id ∉ m.ids := fun hmem => hself (hsub.subset hmem)
  obtain ⟨q, hasked, hinside, hfollows⟩ := ih ht
  have hs := ((silent_takeItems setting info.id path header.iterable a).done hloop).1
  have hturns : s.turns = a.turns := by rw [hs.same]
  refine ⟨q.behind ⟨info.id, path, .noItems⟩, (Question.Asked.behind hasked).of_turns hturns,
    (hinside.weaken hids List.prefix_rfl).behind hid List.prefix_rfl,
    fun {response rest held c} h => ?_⟩
  -- between the pause and the response nothing has decided for the block
  have hdecision : (c.statuses.ofNode info.id).decision = (a.statuses.ofNode info.id).decision := by
    refine h.decision.trans (congrArg NodeStatus.decision ?_)
    rw [← hs.statuses]
    exact (progress_of_walk ht).frame info.id hnot
  have hcheck : runFrom c (checkNames info header) = (.ok (), c) :=
    runFrom_checkNames (hnames.of_pointers h.pointers)
  show Question.Follows _ _ _ _ _ (runFrom c (Walking.forBlock _ _ _ _ _ _))
  unfold Walking.forBlock
  rw [runFrom_bind_ok hcheck]
  refine Question.Follows.silent (silent_takeItems setting info.id path header.iterable) hid
    fun loop' c' hc' hsilent => ?_
  -- the block finds no items again, or the iterable, evaluated anew, gives some this time
  split
  · have hpoised := (((h.poised.silent hsilent).advance hs.progress hturns).entered
      ⟨info.id, path, .noItems⟩).sublist hsub
    refine Question.Follows.echo ?_ echoes_entering
    refine (hfollows hpoised).behind (fun other hmem heq => ?_)
      (fun _ => hnot) hids List.prefix_rfl hid List.prefix_rfl
    have hblock : other.block = info.id := heq
    exact hnot (hblock ▸ (hinside.blocks other hmem).1)
  · next hitems =>
    have hsome : loop'.items ≠ [] := fun hnil => hitems (by rw [hnil]; rfl)
    obtain ⟨item, later, hcons⟩ := List.exists_cons_of_ne_nil hsome
    rw [first_of_takeItems hdecision hloop hempty hc' hsome, List.drop_zero, hcons]
    refine follows_of_items hinside (fun other hother hmem => ?_) fun other hother => ?_
    · rcases List.mem_cons.1 hother with rfl | hother
      · exact hnot hmem
      · rw [childNodes, idsAll_append] at hnodup
        refine (List.nodup_append.1 hnodup).2.2 other hother other ?_ rfl
        exact ids_subset_idsAll (List.mem_singleton.2 rfl) hmem
    · rcases List.mem_cons.1 hother with rfl | hother
      · exact hid
      · refine idsAll_childNodes_subset _ ?_
        rw [childNodes, idsAll_append]
        exact List.mem_append_left _ hother

end Loops

/-! ### Elements -/

section Elements

variable {name : String} {attributes : List Attribute} {values : Fields Value}

/-- Behind what is inside of a node nothing is done by the nodes inside. -/
theorem adds_behind {α : Type} {x : Walking α} {n : Node} (hself : n.id ∉ idsAll n.childNodes)
    (h : Respects (leaf n.id path False False) x) :
    Respects (adds fun e => e.Inside n.ids path ∧ ¬ e.Inside (idsAll n.childNodes) path) x := by
  have hx : Respects (progress [n.id] path False False) x :=
    progress_of_leaf h (List.mem_singleton.2 rfl) False.elim
  refine adds_of_progress hx fun e he => ?_
  have hnode : e.node = n.id := List.mem_singleton.1 he.1
  exact ⟨⟨hnode ▸ n.id_mem_ids, he.2⟩, fun hmine => hself (hnode ▸ hmine.1)⟩

theorem replies_content {kind : ContentKind} (hkind : TagKind.ofName name = .content kind)
    (houter : a.inContent = false) (hnodup : (element info name attributes children).ids.Nodup)
    (ih : ∀ m ∈ children, RepliesIn setting m)
    (hvalues : runFrom a (attributeValues setting info.id path attributes) = (.ok values, s))
    (ht : PausesAmong setting path config children
      { s.closedText with inContent := true, inArguments := false } t) :
    RepliesInside setting (element info name attributes children) path a
      { t with inContent := false, inArguments := s.inArguments } := by
  obtain ⟨hself, hnodup⟩ := List.nodup_cons.1 (ids_eq _ ▸ hnodup)
  have hsub : idsAll children ⊆ (element info name attributes children).ids :=
    idsAll_childNodes_subset (element info name attributes children)
  have hid : info.id ∈ (element info name attributes children).ids := id_mem_ids _
  -- the question is asked among the children, whose walk the tag resumes with its own slots set
  obtain ⟨q, hasked, hinside, hfollows⟩ := replies_among hnodup ih ht
  have hs := ((silent_values setting info.id path attributes a).done hvalues).1
  have hturns : s.turns = a.turns := by rw [hs.same]
  refine ⟨q, hasked.of_turns hturns, hinside.weaken hsub List.prefix_rfl,
    fun {response rest held c} h => ?_⟩
  rw [act_content hkind (h.poised.inContent.trans houter)]
  refine Question.Follows.silent (silent_values setting info.id path attributes) hid
    fun _ c' _ hsilent => ?_
  rw [runFrom_bind_ok (runFrom_closeText c')]
  have hc' := (h.poised.advance hs.progress hturns).silent hsilent
  have hinner : Poised (response :: rest) (info.id :: held) (idsAll children)
      { s.closedText with inContent := true, inArguments := false } t
      { c'.closedText with inContent := true, inArguments := false } :=
    { hc' with
      stray := rfl, content := by rw [hc'.settled.closedText]; exact hc'.content
      inContent := rfl, inArguments := rfl }
  -- the wrappers of the body leave messages, turns and journal alone
  have hbody : q.Follows response (idsAll children) path c' (runFrom c'.closedText (within
      (fun w => { w with inContent := true }) (fun w => { w with inContent := false })
      (inArguments false (walkAll setting children path)))) := by
    refine Question.Follows.echo ?_ (echoes_within (fun _ => rfl) fun _ => rfl)
    refine Question.Follows.echo ?_ echoes_inArguments
    exact (hfollows hinner).of_same rfl rfl rfl
  refine hbody.bind hinside hsub List.prefix_rfl fun _ => ?_
  refine adds_behind (n := element info name attributes children) hself ?_
  refine Respects.bind (Respects.look _) fun stray => ?_
  refine Respects.bind (leaf_modify fun _ => rfl) fun _ => ?_
  exact leaf_placeContent info path kind _

theorem replies_toolCall (hkind : TagKind.ofName name = .toolCall) (houter : a.inContent = false)
    (hnodup : (element info name attributes children).ids.Nodup)
    (ih : ∀ m ∈ children, RepliesIn setting m)
    (hvalues : runFrom a (attributeValues setting info.id path attributes) = (.ok values, s))
    (ht : PausesAmong setting path config children { s with stray := "", inArguments := true } t) :
    RepliesInside setting (element info name attributes children) path a
      { t with inArguments := s.inArguments, stray := s.stray } := by
  obtain ⟨hself, hnodup⟩ := List.nodup_cons.1 (ids_eq _ ▸ hnodup)
  have hsub : idsAll children ⊆ (element info name attributes children).ids :=
    idsAll_childNodes_subset (element info name attributes children)
  have hid : info.id ∈ (element info name attributes children).ids := id_mem_ids _
  -- as for a content tag, but what the children write is captured as the arguments
  obtain ⟨q, hasked, hinside, hfollows⟩ := replies_among hnodup ih ht
  have hs := ((silent_values setting info.id path attributes a).done hvalues).1
  have hturns : s.turns = a.turns := by rw [hs.same]
  refine ⟨q, hasked.of_turns hturns, hinside.weaken hsub List.prefix_rfl,
    fun {response rest held c} h => ?_⟩
  have hcontent : c.inContent = false := h.poised.inContent.trans houter
  show Question.Follows _ _ _ _ _ (runFrom c (Walking.element _ _ _ _ _ _))
  unfold Walking.element
  rw [hkind]
  unfold Walking.toolCall
  rw [runFrom_bind_ok (runFrom_look c _), hcontent, if_neg Bool.false_ne_true]
  refine Question.Follows.silent (silent_values setting info.id path attributes) hid
    fun values' c' _ hsilent => ?_
  split
  · exact fun hr => absurd rfl (hr _)
  · exact fun hr => absurd rfl (hr _)
  · have hc' := (h.poised.advance hs.progress hturns).silent hsilent
    have hinner : Poised (response :: rest) (info.id :: held) (idsAll children)
        { s with stray := "", inArguments := true } t
        { c' with stray := "", inArguments := true } :=
      { hc' with stray := rfl, inArguments := rfl }
    have hbody : q.Follows response (idsAll children) path c'
        (runFrom c' (captured (inArguments true (walkAll setting children path)))) := by
      refine Question.Follows.echo ?_ echoes_captured
      refine Question.Follows.echo ?_ echoes_inArguments
      exact (hfollows hinner).of_same rfl rfl rfl
    refine hbody.bind hinside hsub List.prefix_rfl fun text => ?_
    refine adds_behind (n := element info name attributes children) hself ?_
    exact Respects.bind (leaf_toolArguments info text) fun _ => leaf_call info.id path _

theorem replies_unknown {p : Problem} (hkind : TagKind.ofName name = .unknown)
    (hnodup : (element info name attributes children).ids.Nodup)
    (ih : ∀ m ∈ children, RepliesIn setting m)
    (ht : PausesAmong setting path config children { a with problems := a.problems ++ [p] } t) :
    RepliesInside setting (element info name attributes children) path a t := by
  obtain ⟨hself, hnodup⟩ := List.nodup_cons.1 (ids_eq _ ▸ hnodup)
  have hsub : idsAll children ⊆ (element info name attributes children).ids :=
    idsAll_childNodes_subset (element info name attributes children)
  obtain ⟨q, hasked, hinside, hfollows⟩ := replies_among hnodup ih ht
  refine ⟨q, hasked, hinside.weaken hsub List.prefix_rfl, fun {response rest held c} h => ?_⟩
  show Question.Follows _ _ _ _ _ (runFrom c (Walking.element _ _ _ _ _ _))
  unfold Walking.element
  rw [hkind]
  dsimp only
  rw [runFrom_bind_ok (runFrom_report c _ _ _)]
  have hinner : Poised (response :: rest) (info.id :: held) (idsAll children)
      { a with problems := a.problems ++ [p] } t { c with problems :=
        c.problems ++ [{ fault := .unknownTag name, start := info.start, stop := info.stop }] } :=
    { h.poised with }
  exact Question.Follows.of_same ((hfollows hinner).weaken hsub List.prefix_rfl) rfl rfl rfl

/-- The step takes the response. -/
theorem replies_step {as? : Option String} (hkind : TagKind.ofName name = .step)
    (houter : a.inStep = false) (hmessage : a.inMessage = false)
    (hname : runFrom a (stepName attributes) = (.ok as?, a))
    (hconfig : runFrom a (stepConfig setting info.id path attributes) = (.ok config, s))
    (hbody : runFrom { s with inStep := true } (walkAll setting children path) = (.ok (), t)) :
    RepliesInside setting (element info name attributes children) path a
      (waiting setting info.id path { t with inStep := false }) := by
  -- the step's own body asks nothing, so the turns at the pause are those at its entry
  have hturns : t.turns = a.turns := by
    have hs : s.turns = a.turns := by
      rw [((silent_stepConfig setting info.id path False.elim False.elim a).done hconfig).1.same]
    exact (finish_of_walkAll hbody).turns.trans hs
  have hid : info.id ∈ (element info name attributes children).ids := id_mem_ids _
  refine ⟨⟨info.id, path, []⟩, ?_, ⟨hid, List.prefix_rfl, fun _ h => nomatch h⟩,
    fun {response rest held c} h => ?_⟩
  · show some (Event.asked _ _ t.turns) = _
    rw [hturns, List.append_nil]
  -- the response is at the head of those left, and the step takes it
  · rw [h.step hkind houter hmessage hname hconfig hbody,
      runFrom_takeResponse_cons h.poised.responses]
    unfold replied
    rw [closed_answered, h.poised.settled.closed]
    refine fun _ => ⟨[.answered info.id path c.turns response], rfl, fun e he => ?_,
      .inl ⟨List.prefix_rfl, ?_, fun _ h => nomatch h⟩⟩
    · obtain rfl := List.mem_singleton.1 he
      exact ⟨hid, List.prefix_rfl⟩
    · rw [List.append_nil]
      exact List.mem_singleton.2 rfl

end Elements

/-! ### The claim -/

/-- What a node does follows the question it paused at. -/
theorem replies_act {n : Node} (hnodup : n.ids.Nodup) (ih : ∀ m ∈ n.childNodes, RepliesIn setting m)
    (h : Pauses setting path config n a t) : RepliesInside setting n path a t := by
  cases h with
  | fragment h =>
    exact replies_fragment (List.nodup_cons.1 (ids_eq _ ▸ hnodup)).2 ih h
  | taken hcondition h =>
    exact replies_taken hnodup (fun m hm => ih m (List.mem_append_left _ hm)) hcondition h
  | passed hcondition h =>
    exact replies_passed hnodup (ih _ (List.mem_append_right _ (List.mem_singleton.2 rfl)))
      hcondition h
  | iteration hnames hloop hitems hbefore hindex h =>
    exact replies_iteration hnodup (fun m hm => ih m (List.mem_append_left _ hm)) hnames
      hloop hitems
      hbefore hindex h
  | noItems hnames hloop hempty h =>
    exact replies_noItems hnodup (ih _ (List.mem_append_right _ (List.mem_singleton.2 rfl))) hnames
      hloop hempty h
  | content hkind houter hvalues h => exact replies_content hkind houter hnodup ih hvalues h
  | toolCall hkind houter hvalues h => exact replies_toolCall hkind houter hnodup ih hvalues h
  | unknown hkind h => exact replies_unknown hkind hnodup ih h
  | step hkind houter hmessage hname hconfig hbody hnone =>
    exact replies_step hkind houter hmessage hname hconfig hbody

/-- A walk that goes on where another one paused in a node follows the question of that pause. -/
theorem replies {n : Node} (hnodup : n.ids.Nodup) : RepliesIn setting n := by
  -- the induction is over the tree: a child's pause becomes its parent's
  induction n using Node.induct with
  | step n ih =>
    intro path config a t ht
    have hinner : (idsAll n.childNodes).Nodup := (List.nodup_cons.1 (ids_eq n ▸ hnodup)).2
    have hchildren : ∀ m ∈ n.childNodes, RepliesIn setting m :=
      fun m hm => ih m hm (hinner.sublist (ids_sublist_idsAll hm))
    obtain ⟨-, s, hs, rfl⟩ := pauses_of_walk ht
    obtain ⟨q, hasked, hinside, hfollows⟩ := replies_act hnodup hchildren hs
    have hturns : (a.enter n.id path).turns = a.turns := by
      unfold Walk.enter
      split
      · rfl
      · rfl
    refine ⟨q, hasked.of_turns hturns, hinside, fun {response rest held c} h => ?_⟩
    obtain ⟨hover, henter, hentered⟩ := enter_of_poised hs rfl ht h
    rw [walk_eq]
    refine Question.Follows.echo ?_ (echoes_visiting hover)
    refine (hfollows hentered).of_same ?_ ?_ ?_
    · rw [henter]
    · rw [henter]
    · rw [henter]

end Node

end PromptMarkup

/-
Computations with a state that may stop early.

Evaluations, surveys and walks change a state and may stop with a reason; what was changed before
stays changed.

* `Computation.runFrom` — how a computation that starts from a state ends;
* `Computation.runFrom_bind` — a computation goes on unless its first part stopped;
* `Computation.Respects` — a law on how the state changes and why a computation may stop, which
  holds of a computation once it holds of its parts.
-/
namespace PromptMarkup

/-- A computation with a state `σ` that may stop early with a reason `ε`. -/
abbrev Computation (ε σ : Type) := ExceptT ε (StateM σ)

namespace Computation

variable {ε σ α β : Type}

/-- Runs a computation from a state: how it ended, and the state afterwards. -/
def runFrom (s : σ) (c : Computation ε σ α) : Except ε α × σ :=
  (ExceptT.run c).run s

/-- A part of the state. -/
def look (part : σ → α) : Computation ε σ α := do
  return part (← get)

@[simp] theorem runFrom_pure (s : σ) (a : α) :
    runFrom s (pure a : Computation ε σ α) = (.ok a, s) := rfl

@[simp] theorem runFrom_throw (s : σ) (e : ε) :
    runFrom s (throw e : Computation ε σ α) = (.error e, s) := rfl

@[simp] theorem runFrom_get (s : σ) : runFrom s (get : Computation ε σ σ) = (.ok s, s) := rfl

@[simp] theorem runFrom_set (s t : σ) :
    runFrom s (set t : Computation ε σ PUnit) = (.ok ⟨⟩, t) := rfl

@[simp] theorem runFrom_modify (s : σ) (f : σ → σ) :
    runFrom s (modify f : Computation ε σ PUnit) = (.ok ⟨⟩, f s) := rfl

@[simp] theorem runFrom_look (s : σ) (part : σ → α) :
    runFrom s (look part : Computation ε σ α) = (.ok (part s), s) := rfl

theorem runFrom_bind (s : σ) (x : Computation ε σ α) (f : α → Computation ε σ β) :
    runFrom s (x >>= f) =
      match runFrom s x with
      | (.ok a, t) => runFrom t (f a)
      | (.error e, t) => (.error e, t) := by
  simp only [runFrom, ExceptT.run_bind, StateT.run_bind]
  rcases StateT.run (ExceptT.run x) s with ⟨e | a, t⟩
  · rfl
  · rfl

theorem runFrom_map (s : σ) (f : α → β) (x : Computation ε σ α) :
    runFrom s (f <$> x) = ((runFrom s x).1.map f, (runFrom s x).2) := by
  simp only [runFrom, ExceptT.run_map, StateT.run_map]
  rfl

/-- How a computation ends whose first part did not stop. -/
theorem runFrom_bind_ok {s t : σ} {x : Computation ε σ α} {a : α}
    (h : runFrom s x = (.ok a, t)) (f : α → Computation ε σ β) :
    runFrom s (x >>= f) = runFrom t (f a) := by
  rw [runFrom_bind, h]

/-- A computation ends where its first part stopped. -/
theorem runFrom_bind_error {s t : σ} {x : Computation ε σ α} {e : ε}
    (h : runFrom s x = (.error e, t)) (f : α → Computation ε σ β) :
    runFrom s (x >>= f) = (.error e, t) := by
  rw [runFrom_bind, h]

/-- A computation that did not stop came through its first part. -/
theorem runFrom_bind_eq_ok {s t : σ} {x : Computation ε σ α} {f : α → Computation ε σ β} {b : β}
    (h : runFrom s (x >>= f) = (.ok b, t)) :
    ∃ a s', runFrom s x = (.ok a, s') ∧ runFrom s' (f a) = (.ok b, t) := by
  rw [runFrom_bind] at h
  rcases hx : runFrom s x with ⟨e | a, s'⟩
  · simp [hx] at h
  · rw [hx] at h
    exact ⟨a, s', rfl, h⟩

/-- A computation that stopped did so in its first part, or behind it. -/
theorem runFrom_bind_eq_error {s t : σ} {x : Computation ε σ α} {f : α → Computation ε σ β}
    {e : ε} (h : runFrom s (x >>= f) = (.error e, t)) :
    runFrom s x = (.error e, t) ∨
      ∃ a s', runFrom s x = (.ok a, s') ∧ runFrom s' (f a) = (.error e, t) := by
  rw [runFrom_bind] at h
  rcases hx : runFrom s x with ⟨e' | a, s'⟩
  · rw [hx] at h
    obtain ⟨rfl, rfl⟩ : e' = e ∧ s' = t := by simpa using h
    exact .inl rfl
  · rw [hx] at h
    exact .inr ⟨a, s', rfl, h⟩

/-! ### Laws -/

/-- A law on computations: how the state may have changed at the end, and for which reason and with
which state a computation that starts from a state may stop. -/
structure Law (ε σ : Type) where
  done : σ → σ → Prop
  stop : σ → ε → σ → Prop
  refl : ∀ s, done s s
  trans : ∀ {s t u}, done s t → done t u → done s u
  /-- What may stop behind a part that did not stop may stop in front of it. -/
  back : ∀ {s t e u}, done s t → stop t e u → stop s e u

/-- A computation that starts from a state keeps a law. -/
def RespectsAt (L : Law ε σ) (s : σ) (x : Computation ε σ α) : Prop :=
  match runFrom s x with
  | (.ok _, t) => L.done s t
  | (.error e, t) => L.stop s e t

/-- A computation that keeps a law. -/
def Respects (L : Law ε σ) (x : Computation ε σ α) : Prop :=
  ∀ s, RespectsAt L s x

namespace RespectsAt

variable {L L' : Law ε σ} {s t : σ}

theorem of_ok {x : Computation ε σ α} {a : α} (h : runFrom s x = (.ok a, t)) (ht : L.done s t) :
    RespectsAt L s x := by
  rw [RespectsAt, h]
  exact ht

theorem of_error {x : Computation ε σ α} {e : ε} (h : runFrom s x = (.error e, t))
    (ht : L.stop s e t) : RespectsAt L s x := by
  rw [RespectsAt, h]
  exact ht

theorem done {x : Computation ε σ α} {a : α} (hx : RespectsAt L s x)
    (h : runFrom s x = (.ok a, t)) : L.done s t := by
  rw [RespectsAt, h] at hx
  exact hx

theorem stop {x : Computation ε σ α} {e : ε} (hx : RespectsAt L s x)
    (h : runFrom s x = (.error e, t)) : L.stop s e t := by
  rw [RespectsAt, h] at hx
  exact hx

/-- A law is kept from a state by a computation whose first part keeps it and that keeps it from
wherever the first part may end. -/
theorem bind {x : Computation ε σ α} {f : α → Computation ε σ β} (hx : RespectsAt L s x)
    (hf : ∀ a t, runFrom s x = (.ok a, t) → L.done s t → RespectsAt L t (f a)) :
    RespectsAt L s (x >>= f) := by
  rcases h : runFrom s x with ⟨e | a, t⟩
  · exact of_error (runFrom_bind_error h f) (hx.stop h)
  · have hd : L.done s t := hx.done h
    have ht : RespectsAt L t (f a) := hf a t h hd
    rcases h' : runFrom t (f a) with ⟨e | b, u⟩
    · exact of_error ((runFrom_bind_ok h f).trans h') (L.back hd (ht.stop h'))
    · exact of_ok ((runFrom_bind_ok h f).trans h') (L.trans hd (ht.done h'))

theorem look_bind {part : σ → α} {f : α → Computation ε σ β}
    (h : RespectsAt L s (f (part s))) : RespectsAt L s (look part >>= f) := by
  rw [RespectsAt, runFrom_bind_ok (runFrom_look s part)]
  exact h

/-- A law may be replaced by a weaker one. -/
theorem weaken {x : Computation ε σ α} (h : RespectsAt L s x)
    (hdone : ∀ t, L.done s t → L'.done s t)
    (hstop : ∀ e t, L.stop s e t → L'.stop s e t) : RespectsAt L' s x := by
  rcases hx : runFrom s x with ⟨e | a, t⟩
  · exact of_error hx (hstop e t (h.stop hx))
  · exact of_ok hx (hdone t (h.done hx))

end RespectsAt

namespace Respects

variable {L L' : Law ε σ}

theorem pure (a : α) : Respects L (pure a : Computation ε σ α) :=
  fun s => L.refl s

theorem look (part : σ → α) : Respects L (look part : Computation ε σ α) :=
  fun s => L.refl s

theorem modify {f : σ → σ} (h : ∀ s, L.done s (f s)) :
    Respects L (modify f : Computation ε σ PUnit) :=
  fun s => h s

theorem throw {e : ε} (h : ∀ s, L.stop s e s) : Respects L (throw e : Computation ε σ α) :=
  fun s => h s

theorem bind {x : Computation ε σ α} {f : α → Computation ε σ β} (hx : Respects L x)
    (hf : ∀ a, Respects L (f a)) : Respects L (x >>= f) :=
  fun s => (hx s).bind fun a t _ _ => hf a t

/-- A law may be replaced by a weaker one. -/
theorem weaken {x : Computation ε σ α} (h : Respects L x)
    (hdone : ∀ s t, L.done s t → L'.done s t)
    (hstop : ∀ s e t, L.stop s e t → L'.stop s e t) : Respects L' x :=
  fun s => (h s).weaken (hdone s) (hstop s)

end Respects

end Computation

end PromptMarkup

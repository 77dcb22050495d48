import Mathlib.Logic.Basic

/-!
# Programs with state that can fail

A logic for programs in `StateT σ (Except ε)`: `Yields` says that a program runs to its
end from a state, and what holds then; `Fails` says that it stops with an error.  Every
program does one of the two, so that the rules prove total correctness.
-/

namespace Av6

namespace FallibleState

variable {σ ε α β : Type} {m : StateT σ (Except ε) α}
  {f : α → StateT σ (Except ε) β} {s t : σ} {a : α} {e : ε}

/-- From `s` the program ends with a result and a state that satisfy `Q`. -/
def Yields (m : StateT σ (Except ε) α) (s : σ) (Q : α → σ → Prop) : Prop :=
  ∃ a t, m s = .ok (a, t) ∧ Q a t

/-- From `s` the program stops with the error `e`. -/
def Fails (m : StateT σ (Except ε) α) (s : σ) (e : ε) : Prop :=
  m s = .error e

theorem Yields.of_eq {Q : α → σ → Prop} (runs : m s = .ok (a, t)) (holds : Q a t) :
    Yields m s Q :=
  ⟨a, t, runs, holds⟩

theorem Yields.mono {Q Q' : α → σ → Prop} (yields : Yields m s Q)
    (weaker : ∀ a t, Q a t → Q' a t) : Yields m s Q' := by
  obtain ⟨a, t, runs, holds⟩ := yields
  exact ⟨a, t, runs, weaker a t holds⟩

theorem Yields.post_of_eq {Q : α → σ → Prop} (yields : Yields m s Q)
    (runs : m s = .ok (a, t)) : Q a t := by
  obtain ⟨a', t', runs', holds⟩ := yields
  rw [runs] at runs'
  cases runs'
  exact holds

theorem Yields.not_fails {Q : α → σ → Prop} (yields : Yields m s Q) : ¬ Fails m s e := by
  obtain ⟨a, t, runs, -⟩ := yields
  rw [Fails, runs]
  rintro ⟨⟩

theorem Yields.ret {Q : α → σ → Prop} (holds : Q a s) :
    Yields (pure a : StateT σ (Except ε) α) s Q :=
  ⟨a, s, rfl, holds⟩

theorem bind_eq_of_ok (runs : m s = .ok (a, t)) : (m >>= f) s = f a t := by
  show (m s >>= fun r => f r.1 r.2) = f a t
  rw [runs]
  rfl

/-- A run of two programs, one after the other, is a run of each. -/
theorem exists_of_bind {b : β} {u : σ} (runs : (m >>= f) s = .ok (b, u)) :
    ∃ a t, m s = .ok (a, t) ∧ f a t = .ok (b, u) := by
  cases outcome : m s with
  | error e =>
      replace runs : (m s >>= fun r => f r.1 r.2) = .ok (b, u) := runs
      rw [outcome] at runs
      cases runs
  | ok result =>
      obtain ⟨a, t⟩ := result
      rw [bind_eq_of_ok outcome] at runs
      exact ⟨a, t, rfl, runs⟩

/-- Where two programs, one after the other, fail, one of them does. -/
theorem fails_of_bind (fails : Fails (m >>= f) s e) :
    Fails m s e ∨ ∃ a t, m s = .ok (a, t) ∧ Fails (f a) t e := by
  cases outcome : m s with
  | error e' =>
      replace fails : (m s >>= fun r => f r.1 r.2) = .error e := fails
      rw [outcome] at fails
      cases fails
      exact .inl outcome
  | ok result =>
      obtain ⟨a, t⟩ := result
      rw [Fails, bind_eq_of_ok outcome] at fails
      exact .inr ⟨a, t, rfl, fails⟩

theorem Yields.bind {P : α → σ → Prop} {Q : β → σ → Prop} (first : Yields m s P)
    (rest : ∀ a t, P a t → Yields (f a) t Q) : Yields (m >>= f) s Q := by
  obtain ⟨a, t, runs, holds⟩ := first
  obtain ⟨b, r, runs', holds'⟩ := rest a t holds
  exact ⟨b, r, (bind_eq_of_ok runs).trans runs', holds'⟩

theorem Yields.read_bind {f : σ → StateT σ (Except ε) β} {Q : β → σ → Prop}
    (rest : Yields (f s) s Q) : Yields (get >>= f) s Q :=
  rest

theorem Yields.write {Q : PUnit → σ → Prop} (holds : Q ⟨⟩ t) :
    Yields (set t : StateT σ (Except ε) PUnit) s Q :=
  ⟨⟨⟩, t, rfl, holds⟩

theorem Yields.write_bind {f : PUnit → StateT σ (Except ε) β} {Q : β → σ → Prop}
    (rest : Yields (f ⟨⟩) t Q) : Yields (set t >>= f) s Q :=
  rest

theorem Yields.update {g : σ → σ} {Q : PUnit → σ → Prop} (holds : Q ⟨⟩ (g s)) :
    Yields (modify g : StateT σ (Except ε) PUnit) s Q :=
  ⟨⟨⟩, g s, rfl, holds⟩

theorem Yields.update_bind {g : σ → σ} {f : PUnit → StateT σ (Except ε) β}
    {Q : β → σ → Prop} (rest : Yields (f ⟨⟩) (g s) Q) :
    Yields (modify g >>= f) s Q :=
  rest

theorem Fails.read_bind {f : σ → StateT σ (Except ε) β} (rest : Fails (f s) s e) :
    Fails (get >>= f) s e :=
  rest

theorem Fails.update_bind {g : σ → σ} {f : PUnit → StateT σ (Except ε) β}
    (rest : Fails (f ⟨⟩) (g s) e) : Fails (modify g >>= f) s e :=
  rest

theorem Fails.bind (fails : Fails m s e) : Fails (m >>= f) s e := by
  show (m s >>= fun r => f r.1 r.2) = .error e
  rw [fails]
  rfl

theorem Yields.bind_fails {P : α → σ → Prop} (first : Yields m s P)
    (rest : ∀ a t, P a t → Fails (f a) t e) : Fails (m >>= f) s e := by
  obtain ⟨a, t, runs, holds⟩ := first
  exact (bind_eq_of_ok runs).trans (rest a t holds)

/-- Stop with the error unless the condition holds. -/
def check (condition : Prop) [Decidable condition] (e : ε) : StateT σ (Except ε) Unit :=
  if condition then Pure.pure () else throw e

theorem Yields.check_bind {condition : Prop} [Decidable condition]
    {f : Unit → StateT σ (Except ε) β} {Q : β → σ → Prop} (met : condition)
    (rest : Yields (f ()) s Q) : Yields (check condition e >>= f) s Q := by
  unfold check
  rw [if_pos met]
  exact rest

theorem Fails.check_bind {condition : Prop} [Decidable condition]
    {f : Unit → StateT σ (Except ε) β} (unmet : ¬ condition) :
    Fails (check condition e >>= f) s e := by
  unfold check
  rw [if_neg unmet]
  rfl

/-- A loop over a list, with an invariant that sees what is left to do. -/
theorem Yields.forM {ι : Type} {b : ι → StateT σ (Except ε) Unit}
    {I : List ι → σ → Prop}
    (step : ∀ i rest s, I (i :: rest) s → Yields (b i) s fun _ t => I rest t)
    (l : List ι) (start : I l s) : Yields (l.forM b) s fun _ t => I [] t := by
  induction l generalizing s with
  | nil => exact .ret start
  | cons i rest ih => exact (step i rest s start).bind fun _ t next => ih next

/-- Where the one program ends, the other ends in the same way. -/
def Erases (m m' : StateT σ (Except ε) α) : Prop := ∀ s r, m s = .ok r → m' s = .ok r

theorem Erases.refl (m : StateT σ (Except ε) α) : Erases m m := fun _ _ => id

theorem Erases.bind {m' : StateT σ (Except ε) α} {f' : α → StateT σ (Except ε) β}
    (first : Erases m m') (rest : ∀ a, Erases (f a) (f' a)) : Erases (m >>= f) (m' >>= f') := by
  rintro s ⟨b, u⟩ runs
  obtain ⟨a, t, runs, runs'⟩ := exists_of_bind runs
  rw [bind_eq_of_ok (first s (a, t) runs)]
  exact rest a t (b, u) runs'

/-- A program that only reads may be left out. -/
theorem Erases.of_read {f : σ → StateT σ (Except ε) α} {m' : StateT σ (Except ε) α}
    (rest : ∀ s, Erases (f s) m') : Erases (get >>= f) m' :=
  fun s r runs => rest s s r runs

theorem Erases.of_check {condition : Prop} [Decidable condition]
    {f : Unit → StateT σ (Except ε) α} {m' : StateT σ (Except ε) α} (rest : Erases (f ()) m') :
    Erases (check condition e >>= f) m' := by
  intro s r runs
  unfold check at runs
  split at runs
  · exact rest s r runs
  · cases runs

theorem Erases.forM {ι : Type} {b b' : ι → StateT σ (Except ε) Unit}
    (each : ∀ i, Erases (b i) (b' i)) (l : List ι) : Erases (l.forM b) (l.forM b') := by
  induction l with
  | nil => exact .refl _
  | cons i rest ih => exact (each i).bind fun _ => ih

theorem Erases.yields {m' : StateT σ (Except ε) α} {Q : α → σ → Prop} (erases : Erases m m')
    (yields : Yields m s Q) : Yields m' s Q := by
  obtain ⟨a, t, runs, holds⟩ := yields
  exact ⟨a, t, erases s (a, t) runs, holds⟩

section

variable {τ ε' : Type}

/-- Run a program on a part of the state. -/
def onPart (part : σ → τ) (put : σ → τ → σ) (wrap : ε' → ε) (m : StateT τ (Except ε') α) :
    StateT σ (Except ε) α := fun s =>
  match m (part s) with
  | .ok (a, t) => .ok (a, put s t)
  | .error e => .error (wrap e)

theorem exists_of_onPart {part : σ → τ} {put : σ → τ → σ} {wrap : ε' → ε}
    {m : StateT τ (Except ε') α} (runs : onPart part put wrap m s = .ok (a, t)) :
    ∃ r, m (part s) = .ok (a, r) ∧ t = put s r := by
  unfold onPart at runs
  cases outcome : m (part s) with
  | error e =>
      rw [outcome] at runs
      cases runs
  | ok result =>
      rw [outcome] at runs
      cases runs
      exact ⟨result.2, rfl, rfl⟩

theorem fails_of_onPart {part : σ → τ} {put : σ → τ → σ} {wrap : ε' → ε}
    {m : StateT τ (Except ε') α} (fails : Fails (onPart part put wrap m) s e) :
    ∃ e', Fails m (part s) e' ∧ e = wrap e' := by
  unfold Fails onPart at fails
  cases outcome : m (part s) with
  | error e' =>
      rw [outcome] at fails
      cases fails
      exact ⟨e', outcome, rfl⟩
  | ok result =>
      rw [outcome] at fails
      cases fails

theorem Yields.onPart {part : σ → τ} {put : σ → τ → σ} {wrap : ε' → ε}
    {m : StateT τ (Except ε') α} {Q : α → τ → Prop} (yields : Yields m (part s) Q) :
    Yields (onPart part put wrap m) s fun a t => ∃ r, t = put s r ∧ Q a r := by
  obtain ⟨a, r, runs, holds⟩ := yields
  refine ⟨a, put s r, ?_, r, rfl, holds⟩
  unfold FallibleState.onPart
  rw [runs]

end

section

variable {γ : Type} {view : σ → γ}

/-- Where the program ends, what is seen of the state is as it was. -/
def Keeps (view : σ → γ) (m : StateT σ (Except ε) α) : Prop :=
  ∀ s a t, m s = .ok (a, t) → view t = view s

theorem Keeps.ret : Keeps view (pure a : StateT σ (Except ε) α) := by
  rintro s _ _ ⟨⟩
  rfl

theorem Keeps.stop : Keeps view (throw e : StateT σ (Except ε) α) := by
  rintro s _ _ ⟨⟩

theorem Keeps.bind (first : Keeps view m) (rest : ∀ a, Keeps view (f a)) : Keeps view (m >>= f) := by
  intro s b u runs
  obtain ⟨a, t, runs, runs'⟩ := exists_of_bind runs
  exact (rest a t b u runs').trans (first s a t runs)

theorem Keeps.read_bind {f : σ → StateT σ (Except ε) β} (rest : ∀ s, Keeps view (f s)) :
    Keeps view (get >>= f) := fun s => rest s s

theorem Keeps.update {g : σ → σ} (same : ∀ s, view (g s) = view s) :
    Keeps view (modify g : StateT σ (Except ε) PUnit) := by
  rintro s _ _ ⟨⟩
  exact same s

theorem Keeps.onPart {τ ε' : Type} {part : σ → τ} {put : σ → τ → σ} {wrap : ε' → ε}
    {m : StateT τ (Except ε') α} (same : ∀ s r, view (put s r) = view s) :
    Keeps view (onPart part put wrap m) := by
  intro s a t runs
  obtain ⟨r, -, rfl⟩ := exists_of_onPart runs
  exact same s r

end

end FallibleState

end Av6
